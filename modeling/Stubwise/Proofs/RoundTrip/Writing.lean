import Stubwise.Proofs.RoundTrip.Plain

namespace Stubwise

open List Text

variable {kind : ConstantKind} {expr : Expr} {lists : List (List Token)} {elements : List Expr}
  {mark : Mark} {height : Nat} {id value : String} {after : List Char} {rest : List Token}

namespace Lexer

variable {text after : List Char} {tokens rest : List Token}

/-- In front of the given characters, or at the end, `text` is put together from `tokens`. -/
def Writes (stops text : List Char) (tokens : List Token) : Prop :=
  ∀ ⦃after : List Char⦄ ⦃rest : List Token⦄, StartsIn stops after → Lexes after rest →
    Lexes (text ++ after) (tokens ++ rest)

/-- Texts that are each put together from the tokens of their place. -/
inductive WritesAll : List String → List (List Token) → Prop where
  | nil : WritesAll [] []
  | cons {text : String} {tokens : List Token} {texts : List String} {lists : List (List Token)}
      (first : Writes delimiters text.toList tokens) (others : WritesAll texts lists) :
      WritesAll (text :: texts) (tokens :: lists)

/-- How every expression starts: not with a blank, nor with what makes an operator longer. -/
def Opens (text : List Char) : Prop :=
  ∃ c rest, text = c :: rest ∧ c ∉ [' ', '=', '<', '>', '*', '/']

theorem Opens.append (opens : Opens text) (after : List Char) : Opens (text ++ after) := by
  obtain ⟨c, rest, rfl, other⟩ := opens
  exact ⟨c, rest ++ after, rfl, other⟩

theorem apart_closed {symbol : Symbol} (closed : extenders symbol = []) (other : symbol ≠ .dot)
    (after : List Char) : Apart symbol after := by
  intro c first
  rw [closed]
  exact ⟨by simp, fun dot => absurd dot other⟩

theorem apart_blank (symbol : Symbol) (after : List Char) : Apart symbol (' ' :: after) := by
  rintro c ⟨⟩
  cases symbol <;> decide

theorem apart_opens {symbol : Symbol} (opens : Opens after) (other : symbol ≠ .dot) :
    Apart symbol after := by
  obtain ⟨d, rest, rfl, unlike⟩ := opens
  rintro c ⟨⟩
  have each : ∀ c ∈ extenders symbol, c ∈ [' ', '=', '<', '>', '*', '/'] := by
    cases symbol <;> first | exact forall_of_all (by decide) | exact absurd rfl other
  exact ⟨fun listed => unlike (each _ listed), fun dot => absurd dot other⟩

namespace Lexes

theorem symbol (symbol : Symbol) (apart : Apart symbol after) (lexes : Lexes after rest) :
    Lexes (symbol.text.toList ++ after) (symbol.token :: rest) :=
  .token (spells_symbol symbol apart) lexes

theorem bracket (symbol : Symbol) (closed : extenders symbol = []) (other : symbol ≠ .dot)
    (lexes : Lexes after rest) : Lexes (symbol.text.toList ++ after) (symbol.token :: rest) :=
  .symbol symbol (apart_closed closed other after) lexes

variable (stops : StartsIn ('.' :: '=' :: delimiters) after) (lexes : Lexes after rest)
include stops lexes

theorem word (letters : ∃ c tail, id.toList = c :: tail ∧ isLetter c = true ∧
      ∀ d ∈ tail, isIdentifierPart d = true) : Lexes (id.toList ++ after) (.word id :: rest) := by
  obtain ⟨c, tail, text, letter, parts⟩ := letters
  have spells := spells_word letter parts stops
  rw [← text, String.ofList_toList] at spells
  exact .token spells lexes

theorem keyword (keyword : Keyword) : Lexes (keyword.text.toList ++ after) (keyword.token :: rest) := by
  refine lexes.word stops ?_
  cases keyword <;> exact ⟨_, _, rfl, by decide, forall_of_all (by decide)⟩

theorem name (word : isName id) : Lexes (id.toList ++ after) (.word id :: rest) :=
  lexes.word stops (letters_of_isName word)

end Lexes

theorem WritesAll.append {first second : List String} {left right : List (List Token)}
    (one : WritesAll first left) (other : WritesAll second right) :
    WritesAll (first ++ second) (left ++ right) := by
  induction one with
  | nil => exact other
  | cons writes _ ih => exact .cons writes ih

theorem WritesAll.glued {texts : List String} {glue : List Char}
    {token : Token} (writes : WritesAll texts lists)
    (starts : ∀ after, StartsIn delimiters (glue ++ after))
    (stands : ∀ ⦃after : List Char⦄ ⦃rest : List Token⦄, Lexes after rest →
      Lexes (glue ++ after) (token :: rest))
    (stops : StartsIn delimiters after) (lexes : Lexes after rest) :
    StartsIn delimiters (texts.flatMap (glue ++ ·.toList) ++ after) ∧
      Lexes (texts.flatMap (glue ++ ·.toList) ++ after) (lists.flatMap (token :: ·) ++ rest) := by
  induction writes with
  | nil => exact ⟨stops, lexes⟩
  | cons first _ ih =>
    obtain ⟨stops, lexes⟩ := ih
    simp only [flatMap_cons, append_assoc, cons_append]
    exact ⟨starts _, stands (first stops lexes)⟩

theorem toList_intercalate_cons (glue first : String) (texts : List String) :
    (glue.intercalate (first :: texts)).toList = first.toList ++ texts.flatMap (glue.toList ++ ·.toList) := by
  induction texts generalizing first with
  | nil => simp
  | cons second _ ih => simp [String.toList_append, ih second]

theorem WritesAll.commaList {texts : List String} (writes : WritesAll texts lists) :
    Writes delimiters (Expr.commaList texts).toList (commaTokens lists) := by
  intro after rest stops lexes
  cases writes with
  | nil => exact lexes
  | cons first others =>
    have starts (after : List Char) : StartsIn delimiters (", ".toList ++ after) := .ofCons (by decide)
    have glued := others.glued starts
      (fun _ _ lexes => .bracket .comma (by decide) (by decide) (.blank lexes)) stops lexes
    rw [Expr.commaList, toList_intercalate_cons, commaTokens, append_assoc, append_assoc]
    exact first glued.1 glued.2

theorem Writes.between (left right : Symbol) (writes : Writes delimiters text tokens)
    (opens : left.opens) (closes : right.closes) (stops : List Char) :
    Writes stops (left.text.toList ++ text ++ right.text.toList) (between left tokens right) := by
  intro after rest _ lexes
  have starts : StartsIn delimiters (right.text.toList ++ after) := by
    cases right <;> first | exact .ofCons (by decide) | cases closes
  have close : Lexes (right.text.toList ++ after) (right.token :: rest) := by
    refine lexes.bracket right ?_ ?_ <;> cases right <;> first | decide | cases closes
  have whole : Lexes (left.text.toList ++ (text ++ (right.text.toList ++ after)))
      (left.token :: (tokens ++ right.token :: rest)) := by
    refine (writes starts close).bracket left ?_ ?_ <;> cases left <;>
      first | decide | cases opens
  simpa [Stubwise.between] using whole

end Lexer

namespace Expr

open Lexer

theorem opens_isName (word : isName id) : Opens id.toList := by
  obtain ⟨c, rest, text, letter, _⟩ := letters_of_isName word
  refine ⟨c, rest, text, fun listed => ?_⟩
  have each : ∀ c ∈ [' ', '=', '<', '>', '*', '/'], isLetter c = false := forall_of_all (by decide)
  rw [each c listed] at letter
  cases letter

theorem opens_constantText (written : kind.writes value) : Opens (constantText kind value).toList := by
  cases kind with
  | str => exact ⟨'"', _, String.toList_ofList, by decide⟩
  | int =>
    simp only [ConstantKind.writes, isDecimal, Bool.and_eq_true, List.all_eq_true,
      Bool.not_eq_true'] at written
    cases text : value.toList with
    | nil => simp [text] at written
    | cons d rest =>
      have each : ∀ d ∈ decimalDigits, d ∉ [' ', '=', '<', '>', '*', '/'] := forall_of_all (by decide)
      have digit : isDigit d = true := written.2 d (by rw [text]; exact List.mem_cons_self)
      exact ⟨d, rest, text, each d (mem_of_isDigit digit)⟩
  | bool =>
    rcases bool_writes written with rfl | rfl
    · exact ⟨'T', _, rfl, by decide⟩
    · exact ⟨'F', _, rfl, by decide⟩
  | none =>
    obtain rfl := eq_of_beq written
    exact ⟨'N', _, rfl, by decide⟩
  | ellipsis =>
    rw [constantText]
    exact ⟨'.', _, rfl, by decide⟩
  | float | complex | bytes => cases written

theorem opens_enclose (opens : Opens expr.text.toList) (outer : Level)
    (isRight : Bool) : Opens (enclose expr outer isRight expr.text).toList := by
  unfold enclose
  split
  · rw [String.toList_append, String.toList_append]
    exact ⟨'(', _, rfl, by decide⟩
  · exact opens

theorem opens_unaryOp (op : UnaryOp) : Opens op.text.toList := by
  cases op <;> exact ⟨_, _, rfl, by decide⟩

theorem toList_tupleText (parenthesized : isParenthesized mark)
    (texts : List String) : (tupleText mark texts).toList =
      '(' :: (commaList texts).toList ++ (if texts.length = 1 then [',', ')'] else [')']) := by
  unfold tupleText
  split
  · rfl
  · simp [parenthesized, commaList]
  · rename_i empty single
    have several : texts.length ≠ 1 := by
      intro one
      obtain ⟨element, rfl⟩ := List.length_eq_one_iff.mp one
      exact single element rfl
    simp [parenthesized, several]

theorem text_subscript {value index : Expr} {context : Context}
    (apart : ∀ inner elements context, index ≠ .tuple inner elements context) :
    (subscript mark value index context).text =
      enclose value Level.atom false value.text ++ "[" ++ index.text ++ "]" := by
  cases index
  case tuple inner elements context => exact absurd rfl (apart inner elements context)
  all_goals rfl

theorem text_lambda (mark : Mark) (body : Expr) :
    (lambda mark .empty body).text = "lambda: " ++ enclose body Level.test false body.text :=
  rfl

theorem Plain.opens (plain : Plain height expr) : Opens expr.text.toList := by
  induction plain with
  | name word => exact opens_isName word
  | constant written => exact opens_constantText written
  | list =>
    simp only [text, String.toList_append, List.append_assoc]
    exact ⟨'[', _, rfl, by decide⟩
  | tuple parenthesized =>
    rw [text, toList_tupleText parenthesized]
    exact ⟨'(', _, rfl, by decide⟩
  | set some each | dict keys values =>
    simp only [text, inBraces, String.toList_append, List.append_assoc]
    exact ⟨'\x7b', _, rfl, by decide⟩
  | named word =>
    simp only [text, String.toList_append, List.append_assoc]
    exact (opens_isName word).append _
  | unary =>
    simp only [text, String.toList_append, List.append_assoc]
    exact (opens_unaryOp _).append _
  | boolean _ _ ih =>
    simp only [text, toList_intercalate_cons]
    exact (opens_enclose (ih _ List.mem_cons_self) _ _).append _
  | compare _ _ _ left =>
    simp only [text, String.toList_append]
    exact (opens_enclose left _ _).append _
  | binary first second left | conditional condition first second test left
  | call function each words values left | access plain word apart left =>
    simp only [text, String.toList_append, List.append_assoc]
    exact (opens_enclose left _ _).append _
  | subscript _ _ apart left =>
    simp only [text_subscript apart, String.toList_append, List.append_assoc]
    exact (opens_enclose left _ _).append _
  | lambda =>
    rw [text_lambda, String.toList_append]
    exact ⟨'l', _, rfl, by decide⟩
  | await =>
    simp only [text, String.toList_append]
    exact ⟨'a', _, rfl, by decide⟩

/-- Whether an attribute may be written right behind an expression. -/
def isDottable : Expr → Bool
  | constant _ .int _ => false
  | expr => expr.level == Level.atom

def stops (expr : Expr) : List Char :=
  if expr.isDottable then '.' :: delimiters else delimiters

theorem stops_binary (mark : Mark) (op : BinaryOp) (left right : Expr) :
    (binary mark op left right).stops = delimiters := by
  cases op <;> rfl

theorem stops_unary (mark : Mark) (op : UnaryOp) (operand : Expr) :
    (unary mark op operand).stops = delimiters := by
  cases op <;> rfl

theorem stops_boolean (mark : Mark) (op : BoolOp) (values : List Expr) :
    (boolean mark op values).stops = delimiters := by
  cases op <;> rfl

theorem delimiters_subset_stops (expr : Expr) : ∀ c ∈ delimiters, c ∈ expr.stops := by
  intro c listed
  unfold stops
  split
  · exact List.mem_cons_of_mem _ listed
  · exact listed

theorem stops_subset (expr : Expr) : ∀ c ∈ expr.stops, c ∈ '.' :: delimiters := by
  intro c listed
  unfold stops at listed
  split at listed
  · exact listed
  · exact List.mem_cons_of_mem _ listed

theorem stops_subset_word (expr : Expr) : ∀ c ∈ expr.stops, c ∈ '.' :: '=' :: delimiters := by
  have wider : ∀ c ∈ '.' :: delimiters, c ∈ '.' :: '=' :: delimiters := forall_of_all (by decide)
  exact fun c listed => wider c (expr.stops_subset c listed)

section

variable (writes : Writes expr.stops expr.text.toList expr.tokens)
include writes

theorem writes_parenthesized (stops : List Char) :
    Writes stops ("(" ++ expr.text ++ ")").toList (between .openParen expr.tokens .closeParen) := by
  have inner : Writes delimiters expr.text.toList expr.tokens := fun _ _ starts lexes =>
    writes (starts.mono (delimiters_subset_stops expr)) lexes
  rw [String.toList_append, String.toList_append]
  exact inner.between .openParen .closeParen rfl rfl stops

theorem writes_enclose (outer : Level) (isRight : Bool) :
    Writes delimiters (enclose expr outer isRight expr.text).toList
      (encloseTokens expr outer isRight expr.tokens) := by
  unfold enclose encloseTokens
  split
  · exact writes_parenthesized writes delimiters
  · intro after rest starts lexes
    exact writes (starts.mono (delimiters_subset_stops expr)) lexes

theorem writes_atom (apart : ∀ mark digits, expr ≠ .constant mark .int digits) :
    Writes ('.' :: delimiters) (enclose expr Level.atom false expr.text).toList
      (encloseTokens expr Level.atom false expr.tokens) := by
  unfold enclose encloseTokens
  split
  · exact writes_parenthesized writes _
  · rename_i bare
    have atom : expr.level = Level.atom :=
      Nat.le_antisymm expr.level_le_atom (level_ge_of_needsParens (by simpa using bare))
    have dottable : expr.isDottable = true := by
      unfold isDottable
      split
      · rename_i mark digits
        exact absurd rfl (apart mark digits)
      · rw [atom]
        rfl
    have same : expr.stops = '.' :: delimiters := by rw [stops, if_pos dottable]
    rw [← same]
    exact writes

end

section Parts

theorem writesAll_texts (outer : Level) (isRight : Bool)
    (each : ∀ expr ∈ elements, Writes expr.stops expr.text.toList expr.tokens) :
    WritesAll (texts outer isRight elements) (tokenLists outer isRight elements) := by
  induction elements with
  | nil => exact .nil
  | cons expr _ ih =>
    exact .cons (writes_enclose (each expr List.mem_cons_self) outer isRight)
      (ih (List.forall_mem_cons.mp each).2)

theorem writesAll_itemTexts {items : List DictItem} (opens : ∀ item ∈ items, Opens item.value.text.toList)
    (keys : ∀ item ∈ items, ∀ key ∈ item.key, Writes key.stops key.text.toList key.tokens)
    (values : ∀ item ∈ items, Writes item.value.stops item.value.text.toList item.value.tokens) :
    WritesAll (itemTexts items) (itemTokens items) := by
  induction items with
  | nil => exact .nil
  | cons item _ ih =>
    have others := ih (List.forall_mem_cons.mp opens).2
      (List.forall_mem_cons.mp keys).2
      (List.forall_mem_cons.mp values).2
    obtain ⟨key, value⟩ := item
    have value := values _ List.mem_cons_self
    cases key with
    | none =>
      refine .cons (fun after rest starts lexes => ?_) others
      have spread := writes_enclose value Level.bitOr false starts lexes
      have opened := (opens_enclose (opens _ List.mem_cons_self) Level.bitOr false).append after
      rw [String.toList_append, List.append_assoc]
      exact spread.symbol .power (apart_opens opened (by decide))
    | some key =>
      refine .cons (fun after rest starts lexes => ?_) others
      have first := writes_enclose (keys _ List.mem_cons_self key rfl) Level.test false
      have second := writes_enclose value Level.test false starts lexes
      have colon : Lexes (':' :: ' ' :: _) _ := (Lexes.blank second).symbol .colon (apart_blank _ _)
      simpa using first (.ofCons (by decide)) colon

theorem writesAll_keywordTexts {keywords : List NamedArg}
    (opens : ∀ arg ∈ keywords, Opens arg.value.text.toList)
    (words : ∀ arg ∈ keywords, arg.name = "" ∨ isName arg.name = true)
    (values : ∀ arg ∈ keywords, Writes arg.value.stops arg.value.text.toList arg.value.tokens) :
    WritesAll (keywordTexts keywords) (keywordTokens keywords) := by
  induction keywords with
  | nil => exact .nil
  | cons arg _ ih =>
    have others := ih (List.forall_mem_cons.mp opens).2
      (fun other member => words other (List.mem_cons_of_mem _ member))
      (List.forall_mem_cons.mp values).2
    obtain ⟨mark, keyword, value⟩ := arg
    have word : keyword = "" ∨ isName keyword = true := words _ List.mem_cons_self
    refine .cons (fun after rest starts lexes => ?_) others
    have given := writes_enclose (values _ List.mem_cons_self) Level.test false starts lexes
    have opened := (opens_enclose (opens _ List.mem_cons_self) Level.test false).append after
    rw [String.toList_append, List.append_assoc, List.append_assoc]
    rcases word with rfl | word
    · exact given.symbol .power (apart_opens opened (by decide))
    · have named : keyword.isEmpty = false := isEmpty_of_isName word
      have equals : Lexes ('=' :: _) _ := given.symbol .assign (apart_opens opened (by decide))
      simpa [named] using equals.name (.ofCons (by decide)) word

theorem lexes_compareOp (op : CompareOp)
    (lexes : Lexes after rest) : Lexes (op.text.toList ++ ' ' :: after) (op.tokens ++ rest) := by
  have blank := Lexes.blank lexes
  have starts : StartsIn ('.' :: '=' :: delimiters) (' ' :: after) := .ofCons (by decide)
  cases op with
  | less => exact blank.symbol .less (apart_blank _ _)
  | greater => exact blank.symbol .greater (apart_blank _ _)
  | lessEqual => exact blank.symbol .lessEqual (apart_blank _ _)
  | greaterEqual => exact blank.symbol .greaterEqual (apart_blank _ _)
  | equal => exact blank.symbol .equal (apart_blank _ _)
  | notEqual => exact blank.symbol .notEqual (apart_blank _ _)
  | isIn => exact blank.keyword starts .in_
  | same => exact blank.keyword starts .is_
  | notIn =>
    exact (Lexes.blank (blank.keyword starts .in_)).keyword (.ofCons (by decide)) .not_
  | notSame =>
    exact (Lexes.blank (blank.keyword starts .not_)).keyword (.ofCons (by decide)) .is_

theorem writes_comparisonsText {comparisons : List Comparison}
    (each : ∀ comparison ∈ comparisons, Writes comparison.operand.stops
      comparison.operand.text.toList comparison.operand.tokens)
    (starts : StartsIn delimiters after)
    (lexes : Lexes after rest) :
    StartsIn delimiters ((comparisonsText comparisons).toList ++ after) ∧
      Lexes ((comparisonsText comparisons).toList ++ after) (comparisonTokens comparisons ++ rest) := by
  induction comparisons with
  | nil => exact ⟨starts, lexes⟩
  | cons comparison comparisons ih =>
    obtain ⟨op, operand⟩ := comparison
    obtain ⟨starts, lexes⟩ := ih (List.forall_mem_cons.mp each).2
    have right := writes_enclose (each _ List.mem_cons_self) Level.bitOr false starts lexes
    have shape : (comparisonsText (⟨op, operand⟩ :: comparisons)).toList ++ after =
        ' ' :: (op.text.toList ++ ' ' :: ((enclose operand Level.bitOr false operand.text).toList
          ++ ((comparisonsText comparisons).toList ++ after))) := by
      simp [comparisonsText]
    rw [shape, comparisonTokens, List.append_assoc, List.append_assoc]
    exact ⟨.ofCons (by decide), .blank (lexes_compareOp op right)⟩

end Parts

theorem writes_constant (written : kind.writes value) :
    Writes (stops (constant mark kind value)) (constantText kind value).toList
      [constantToken kind value] := by
  intro after rest starts lexes
  have word := starts.mono (stops_subset_word _)
  cases kind with
  | str => exact .token (spells_string value (starts.mono (stops_subset _))) lexes
  | int =>
    simp only [ConstantKind.writes, isDecimal, Bool.and_eq_true, List.all_eq_true,
      Bool.not_eq_true', List.isEmpty_eq_false_iff] at written
    have spells := spells_int written.2 starts written.1
    rw [String.ofList_toList] at spells
    exact .token spells lexes
  | bool =>
    rcases bool_writes written with rfl | rfl
    · exact lexes.keyword word .true_
    · exact lexes.keyword word .false_
  | none =>
    obtain rfl := eq_of_beq written
    exact lexes.keyword word .none_
  | ellipsis => exact lexes.bracket .ellipsis (by decide) (by decide)
  | float | complex | bytes => cases written

theorem writes_tuple (parenthesized : isParenthesized mark)
    (each : ∀ expr ∈ elements, Writes expr.stops expr.text.toList expr.tokens) (stops : List Char) :
    Writes stops (tuple mark elements .load).text.toList (tuple mark elements .load).tokens := by
  have all := writesAll_texts Level.named false each
  rw [text, toList_tupleText parenthesized]
  cases elements with
  | nil => exact all.commaList.between .openParen .closeParen rfl rfl stops
  | cons first elements =>
    cases elements with
    | nil =>
      have single : Writes delimiters ((enclose first Level.named false first.text).toList ++ [','])
          (encloseTokens first Level.named false first.tokens ++ [Symbol.comma.token]) := by
        intro after rest _ lexes
        have comma : Lexes (',' :: after) (Symbol.comma.token :: rest) :=
          lexes.bracket .comma (by decide) (by decide)
        have inner := writes_enclose (each first List.mem_cons_self) Level.named false
        simpa using inner (.ofCons (by decide)) comma
      have whole := single.between .openParen .closeParen rfl rfl stops
      simpa [texts, tokens, commaList, Symbol.text] using whole
    | cons => exact all.commaList.between .openParen .closeParen rfl rfl stops

theorem lexes_unaryOp (op : UnaryOp) (opens : Opens after) (lexes : Lexes after rest) :
    Lexes (op.text.toList ++ (if op == .not then " " else "").toList ++ after)
      (op.token :: rest) := by
  cases op with
  | minus => exact lexes.symbol .minus (apart_opens opens (by decide))
  | plus => exact lexes.symbol .plus (apart_opens opens (by decide))
  | invert => exact lexes.symbol .tilde (apart_opens opens (by decide))
  | not => exact (Lexes.blank lexes).keyword (.ofCons (by decide)) .not_

theorem glued_boolean (op : BoolOp) {values : List Expr}
    (each : ∀ expr ∈ values, Writes expr.stops expr.text.toList expr.tokens)
    (starts : StartsIn delimiters after)
    (lexes : Lexes after rest) :
    StartsIn delimiters ((texts op.level true values).flatMap
        ((" " ++ op.text ++ " ").toList ++ ·.toList) ++ after) ∧
      Lexes ((texts op.level true values).flatMap ((" " ++ op.text ++ " ").toList ++ ·.toList) ++ after)
        ((tokenLists op.level true values).flatMap (op.keyword.token :: ·) ++ rest) := by
  have all := writesAll_texts op.level true each
  refine all.glued (fun after => ?_) (fun after rest lexes => ?_) starts lexes
  · cases op <;> exact .ofCons (by decide)
  · cases op
    · exact .blank ((Lexes.blank lexes).keyword (.ofCons (by decide)) .and_)
    · exact .blank ((Lexes.blank lexes).keyword (.ofCons (by decide)) .or_)

theorem apart_dot {attr : String} (word : isName attr) (after : List Char) :
    Apart .dot (attr.toList ++ after) := by
  obtain ⟨c, rest, text, letter, _⟩ := letters_of_isName word
  rw [text]
  rintro d ⟨⟩
  have points : ∀ c ∈ extenders .dot, isLetter c = false := forall_of_all (by decide)
  have digits : ∀ c ∈ decimalDigits, isLetter c = false := forall_of_all (by decide)
  refine ⟨fun listed => ?_, fun _ => ?_⟩
  · rw [points c listed] at letter
    cases letter
  · cases digit : isDigit c with
    | false => rfl
    | true =>
      rw [digits c (mem_of_isDigit digit)] at letter
      cases letter

/-- The text of a plain expression is put together from its tokens. -/
theorem Plain.writes (plain : Plain height expr) : Writes expr.stops expr.text.toList expr.tokens := by
  induction plain with
  | name word =>
    intro after rest starts lexes
    exact lexes.name (starts.mono (stops_subset_word _)) word
  | constant written => exact writes_constant written
  | list _ ih =>
    have all := writesAll_texts .named false ih
    rw [text, String.toList_append, String.toList_append]
    exact all.commaList.between .openBracket .closeBracket rfl rfl _
  | tuple parenthesized _ ih => exact writes_tuple parenthesized ih _
  | set _ _ ih =>
    have all := writesAll_texts .named false ih
    rw [text, inBraces, String.toList_append, String.toList_append]
    exact all.commaList.between .openBrace .closeBrace rfl rfl _
  | dict _ values keysIH valuesIH =>
    have all := writesAll_itemTexts (fun item member => (values item member).opens) keysIH valuesIH
    rw [text, inBraces, String.toList_append, String.toList_append]
    exact all.commaList.between .openBrace .closeBrace rfl rfl _
  | named word _ ih =>
    intro after rest starts lexes
    have value := writes_enclose ih .test false starts lexes
    have sign : Lexes (':' :: '=' :: ' ' :: _) _ := (Lexes.blank value).symbol .walrus (apart_blank _ _)
    simpa [text, tokens] using (Lexes.blank sign).name (.ofCons (by decide)) word
  | @binary _ _ op _ _ _ _ left right =>
    intro after rest starts lexes
    rw [stops_binary] at starts
    have value := writes_enclose right op.level true starts lexes
    have sign := (Lexes.blank value).symbol op.symbol (apart_blank _ _)
    have whole := writes_enclose left op.level false (.ofCons (by decide)) (Lexes.blank sign)
    have same : op.symbol.text = op.text := by cases op <;> rfl
    simpa [text, tokens, same] using whole
  | @unary _ _ op _ plain ih =>
    intro after rest starts lexes
    rw [stops_unary] at starts
    have value := writes_enclose ih op.level false starts lexes
    have opens := (opens_enclose plain.opens op.level false).append after
    simp only [text, String.toList_append, append_assoc]
    simpa [tokens] using lexes_unaryOp op opens value
  | @boolean _ _ op first _ _ _ _ ih =>
    intro after rest starts lexes
    rw [stops_boolean] at starts
    obtain ⟨starts, lexes⟩ := glued_boolean op
      (forall_mem_cons.mp ih).2 starts lexes
    rw [text, toList_intercalate_cons, tokens, append_assoc, append_assoc]
    exact writes_enclose (ih first mem_cons_self) op.level false starts lexes
  | compare _ _ _ left ih =>
    intro after rest starts lexes
    obtain ⟨starts, lexes⟩ := writes_comparisonsText ih starts lexes
    simpa [text, tokens] using writes_enclose left .bitOr false starts lexes
  | conditional _ _ _ test body orElse =>
    intro after rest starts lexes
    have last := writes_enclose orElse .conditional false starts lexes
    have elseWord : Lexes ('e' :: 'l' :: 's' :: 'e' :: ' ' :: _) _ :=
      (Lexes.blank last).keyword (.ofCons (by decide)) .else_
    have middle := writes_enclose test .or false (.ofCons (by decide)) elseWord.blank
    have ifWord : Lexes ('i' :: 'f' :: ' ' :: _) _ :=
      (Lexes.blank middle).keyword (.ofCons (by decide)) .if_
    simpa [text, tokens] using writes_enclose body .or false (.ofCons (by decide)) ifWord.blank
  | call _ _ words values callee ih valuesIH =>
    intro after rest starts lexes
    have args := (writesAll_texts .named false ih).append
      (writesAll_keywordTexts (fun arg member => (values arg member).opens) words valuesIH)
    have behind : Lexes ('(' :: _) _ := args.commaList.between .openParen .closeParen rfl rfl _ starts lexes
    simpa [text, tokens, Symbol.text] using writes_enclose callee .atom false (.ofCons (by decide)) behind
  | access _ word apart ih =>
    intro after rest starts lexes
    have name := lexes.name (starts.mono (stops_subset_word _)) word
    have dot : Lexes ('.' :: _) _ := name.symbol .dot (apart_dot word after)
    simpa [text, tokens] using writes_atom ih apart (.ofCons (by decide)) dot
  | subscript _ _ apart value index =>
    intro after rest starts lexes
    have bare : Writes delimiters _ _ := fun _ _ starts lexes =>
      index (starts.mono (delimiters_subset_stops _)) lexes
    have behind : Lexes ('[' :: _) _ := bare.between .openBracket .closeBracket rfl rfl _ starts lexes
    simpa [text_subscript apart, tokens, Symbol.text] using
      writes_enclose value .atom false (.ofCons (by decide)) behind
  | lambda _ ih =>
    intro after rest starts lexes
    have body := writes_enclose ih .test false starts lexes
    have colon : Lexes (':' :: ' ' :: _) _ := (Lexes.blank body).symbol .colon (apart_blank _ _)
    simpa [text_lambda, tokens, Keyword.text] using colon.keyword (.ofCons (by decide)) .lambda_
  | await _ ih =>
    intro after rest starts lexes
    have value := writes_enclose ih .await false starts lexes
    simpa [text, tokens, Keyword.text] using (Lexes.blank value).keyword (.ofCons (by decide)) .await_

end Expr

end Stubwise
