import Stubwise.Proofs.RoundTrip.Precedence

namespace Stubwise.Parser

open List Symbol Level

variable {read : ReadExpr} {depth : Nat} {level : Level} {tokens more rest : List Token}
  {token shown : Token} {expr : Expr}
  {kind : ConstantKind} {found : Expr} {all : List Expr} {others : List Token}
  {mark : Mark} {id value : String} {last : Token}
  {good : Expr → Prop}

theorem kind_of_placeless (same : shown.placeless = token) : shown.kind = token.kind := by
  rw [← same]
  rfl

theorem accepts_kind {β : Type} {next : Token → Parse β} {final : List Token} {good : β → Prop}
    {kind : TokenKind} (stands : token.kind = kind) (accepts : ∀ shown : Token, shown.kind = kind →
      Accepts (next shown) depth (token :: rest) final good) :
    Accepts (liftM current >>= next) depth (token :: rest) final good :=
  accepts_current fun shown same => accepts shown ((kind_of_placeless same).trans stands)

theorem lexeme_of_placeless (same : shown.placeless = token) : shown.lexeme = token.lexeme := by
  rw [← same]
  rfl

theorem value_of_placeless (same : shown.placeless = token) : shown.value = token.value := by
  rw [← same]
  rfl

abbrev Like (expr : Expr) : Expr → Prop :=
  fun found => found.unmarked = expr.unmarked

section Operands

theorem word_kind (word : isName id) : (Token.word id).kind = .ident := by
  rw [isName, Bool.and_eq_true, Option.isNone_iff_eq_none] at word
  simp [Token.word, word.1]

theorem operand_name (word : isName id) :
    Accepts (operand read) depth (.word id :: rest) rest (Like (.name mark id .load)) := by
  refine accepts_kind (word_kind word) fun shown kind => ?_
  simp only [kind, nameExpr]
  refine accepts_markCurrent fun mark same => accepts_pure ?_
  rw [lexeme_of_placeless same]
  rfl

theorem constant_accepts {view : Token → String}
    (viewed : ∀ shown : Token, shown.placeless = token → view shown = value) :
    Accepts (constant kind view) depth (token :: rest) rest (Like (.constant mark kind value)) := by
  refine accepts_markCurrent fun mark same => accepts_pure ?_
  rw [viewed mark.token same]
  rfl

theorem strings_accepts (behind : Behind level rest) :
    Accepts (strings read) depth (.string value :: rest) rest (Like (.constant mark .str value)) := by
  obtain ⟨first, second, others, rfl⟩ := behind.two
  have plain := behind.plain first rfl
  simp only [mem_cons, not_or] at plain
  have noString : (first.kind == .string) = false := beq_eq_false_iff_ne.mpr plain.1
  have noFormatted : (first.kind == .fstring) = false := beq_eq_false_iff_ne.mpr plain.2.1
  have pieces {count : Nat} (enough : (Token.string value :: first :: second :: others).length ≤ count) :
      Accepts (stringPieces read count {}) depth (.string value :: first :: second :: others)
        (first :: second :: others) fun pieces => pieces.isFormatted = false ∧ pieces.text = value := by
    cases count with
    | zero => simp at enough
    | succ =>
      refine accepts_current fun shown same => ?_
      have kind : (shown.kind == .fstring) = false := by
        rw [kind_of_placeless same]
        rfl
      rw [kind]
      have none : Tells (eitherAhead .string .fstring) (.string value :: first :: second :: others) false :=
        tells_bind (tells_aheadIs noString) (tells_bind (tells_aheadIs noFormatted) tells_pure)
      refine accepts_else none (accepts_pure ⟨rfl, ?_⟩)
      show "" ++ shown.value = value
      rw [value_of_placeless same]
      exact String.empty_append
  refine accepts_markCurrent fun mark _ => accepts_turns fun count enough => ?_
  refine (pieces enough).bind fun found last same => ?_
  rw [same.1]
  refine accepts_pure ?_
  rw [same.2]
  rfl

theorem operand_constant (written : kind.writes value) (behind : Behind level rest) :
    Accepts (operand read) depth (constantToken kind value :: rest) rest
      (Like (.constant mark kind value)) := by
  cases kind with
  | str =>
    refine accepts_kind rfl fun shown (kind : shown.kind = .string) => ?_
    simp only [kind]
    exact strings_accepts behind
  | int =>
    refine accepts_kind rfl fun shown (kind : shown.kind = .int) => ?_
    simp only [kind]
    exact constant_accepts fun _ => value_of_placeless
  | bool =>
    rcases bool_writes written with rfl | rfl
    · refine accepts_kind (Keyword.token_kind .true_) fun shown kind => ?_
      simp only [kind]
      exact constant_accepts fun _ => lexeme_of_placeless
    · refine accepts_kind (Keyword.token_kind .false_) fun shown kind => ?_
      simp only [kind]
      exact constant_accepts fun _ => lexeme_of_placeless
  | none =>
    obtain rfl := eq_of_beq written
    refine accepts_kind (Keyword.token_kind .none_) fun shown kind => ?_
    simp only [kind]
    exact constant_accepts fun _ => lexeme_of_placeless
  | ellipsis =>
    obtain rfl := eq_of_beq written
    refine accepts_kind rfl fun shown (kind : shown.kind = .symbol .ellipsis) => ?_
    simp only [kind]
    exact constant_accepts fun _ => lexeme_of_placeless
  | float | complex | bytes => cases written

theorem operand_parenthesis (accepts : Accepts (parenthesized read) depth
      (between .openParen tokens .closeParen ++ rest) rest good) :
    Accepts (operand read) depth (between .openParen tokens .closeParen ++ rest) rest good := by
  refine accepts_current fun shown same => ?_
  rw [kind_of_placeless same]
  exact accepts

theorem operand_brace (accepts : Accepts (braceDisplay read) depth
      (between .openBrace tokens .closeBrace ++ rest) rest good) :
    Accepts (operand read) depth (between .openBrace tokens .closeBrace ++ rest) rest good := by
  refine accepts_current fun shown same => ?_
  rw [kind_of_placeless same]
  exact accepts

theorem parameters_none {hints : Bool} :
    Accepts (parameters read .colon hints) depth (token :: colon.token :: rest) rest (· = .empty) := by
  exact accepts_if (tells_aheadIs rfl) (accepts_advance (accepts_pure rfl))

end Operands

section Items

variable {α ι γ : Type} {item : Parse α} {view : α → γ} {goal : ι → γ} {write : ι → List Token}
  {stops : TokenKind → Bool} {closing : Symbol}

theorem behind_symbol (symbol : Symbol) (loose : bindingLevel (.symbol symbol) = .named)
    (other : symbol ∉ [.walrus, .assign]) (some : rest ≠ []) :
    Behind .named (symbol.token :: rest) :=
  (operates_token loose (by simpa [token] using other) some).toBehind

theorem behind_items (write : ι → List Token) (items : List ι) (behind : Behind .named rest) :
    Behind named (items.flatMap (comma.token :: write ·) ++ rest) := by
  cases items with
  | nil => exact behind
  | cons =>
    obtain ⟨first, second, others, rfl⟩ := behind.two
    exact behind_symbol .comma rfl (by decide) (by simp)

theorem itemsAfterCommas_accepts {items : List ι} {turns : Nat}
    (each : ∀ one ∈ items, ∀ rest, Behind named rest →
      Accepts item depth (write one ++ rest) rest fun found => view found = goal one)
    (starts : ∀ one ∈ items, ∃ first others, write one = first :: others ∧ stops first.kind = false)
    (closes : ∃ second others, rest = second :: others ∧ second.kind ≠ .symbol .comma)
    (behind : Behind .named rest)
    (enough : (last :: (items.flatMap (comma.token :: write ·) ++ rest)).length ≤ turns) :
    Accepts (itemsAfterCommas stops item turns) depth
      (last :: (items.flatMap (comma.token :: write ·) ++ rest)) rest
      fun found => found.map view = items.map goal := by
  induction items generalizing last turns with
  | nil =>
    obtain ⟨second, others, rfl, other⟩ := closes
    cases turns with
    | zero => simp at enough
    | succ =>
      exact accepts_else (tells_aheadIs (beq_eq_false_iff_ne.mpr other)) (accepts_pure rfl)
  | cons one items ih =>
    obtain ⟨first, others, shape, going⟩ := starts one mem_cons_self
    have read := each one mem_cons_self _ (behind_items write items behind)
    simp only [flatMap_cons, cons_append, append_assoc, shape, length_cons, length_append] at enough read ⊢
    cases turns with
    | zero => simp at enough
    | succ =>
      refine accepts_if (tells_aheadIs rfl) (accepts_advance (accepts_ahead fun shown same => ?_))
      rw [kind_of_placeless same, going]
      refine accepts_advance (read.bind fun found last same => ?_)
      refine (ih (forall_mem_cons.mp each).2
        (forall_mem_cons.mp starts).2 ?_).bind
        fun others last all => accepts_pure ?_
      · simp only [length_cons, length_append]
        omega
      · rw [map_cons, map_cons, same, all]

/-- Tokens of these kinds start no expression that is written plainly. -/
def neverFirst : List TokenKind :=
  [.symbol .closeParen, .symbol .closeBracket, .symbol .closeBrace, .symbol .power, .symbol .colon,
    .keyword .yield_, .newline]

/-- How the tokens of an expression at a place of the given level may start. -/
structure Opening (level : Level) (first : Token) (others : List Token) : Prop where
  plain : first.kind ∉ neverFirst
  negation : first.kind = .keyword .not_ → level ≤ .not
  word : first.kind = .ident → ∀ second ∈ others.head?, second.kind ≠ .symbol .assign

theorem Opening.other {kind : TokenKind} (opening : Opening level token others) (listed : kind ∈ neverFirst) :
    (token.kind == kind) = false := by
  rw [beq_eq_false_iff_ne]
  rintro rfl
  exact opening.plain listed

theorem Opening.ne_closing (opening : Opening level token others)
    (closes : closing.closes) : (token.kind == .symbol closing) = false := by
  refine opening.other ?_
  revert closes
  cases closing <;> decide

/-- Tokens that open an expression of the level. -/
def Starts (level : Level) (tokens : List Token) : Prop :=
  ∃ first others, tokens = first :: others ∧ Opening level first others

theorem Starts.ne_nil (starts : Starts level tokens) : tokens ≠ [] := by
  obtain ⟨first, others, rfl, _⟩ := starts
  exact cons_ne_nil first others

/-- At a place, which encloses it where it has to, the expression is read as it is. -/
structure Stands (read : ReadExpr) (depth : Nat) (outer : Level) (isRight : Bool) (level : Level)
    (expr : Expr) : Prop where
  starts : Starts outer (expr.tokensAt outer isRight)
  reads : ∀ ⦃rest : List Token⦄, Behind level rest →
    ReadsAs read depth level (expr.tokensAt outer isRight) rest expr

abbrev Element (read : ReadExpr) (depth : Nat) (expr : Expr) : Prop :=
  Stands read depth .named false .named expr

section Prefixes

variable {outer : Level} {isRight : Bool}

/-- The token in front of an expression is passed, and the expression is read. -/
theorem Stands.next {β : Type} {next : Expr → Parse β} {final : List Token} {good : β → Prop}
    (stands : Stands read depth outer isRight level expr) (behind : Behind level rest)
    (later : ∀ found last, Like expr found → Accepts (next found) depth (last :: rest) final good) :
    Accepts (liftM advance >>= fun _ => read level >>= next) depth
      (token :: (expr.tokensAt outer isRight ++ rest)) final good := by
  obtain ⟨first, others, shape, _⟩ := stands.starts
  have reads := stands.reads behind
  rw [ReadsAs, shape] at reads
  rw [shape]
  exact accepts_advance (reads.bind later)

theorem operand_unary {op : UnaryOp} (stands : Stands read depth outer isRight op.level expr)
    (behind : Behind op.level rest) :
    Accepts (operand read) depth (op.token :: (expr.tokensAt outer isRight ++ rest)) rest
      (Like (.unary mark op expr)) := by
  have body : Accepts (unaryExpr read op) depth (op.token :: (expr.tokensAt outer isRight ++ rest)) rest
      (Like (.unary mark op expr)) := by
    refine accepts_markCurrent fun mark _ => stands.next behind fun found last same => accepts_pure ?_
    simp only [Like, Expr.mapMarks, same]
  refine accepts_kind rfl fun shown kind => ?_
  cases op with
  | minus | plus | invert | not =>
    simp only [kind]
    exact body

theorem operand_await (stands : Stands read depth outer isRight .await expr) (behind : Behind .await rest) :
    Accepts (operand read) depth (Keyword.await_.token :: (expr.tokensAt outer isRight ++ rest)) rest
      (Like (.await mark expr)) := by
  refine accepts_kind (Keyword.token_kind .await_) fun shown kind => ?_
  simp only [kind, awaitExpr]
  refine accepts_markCurrent fun mark _ => stands.next behind fun found last same => accepts_pure ?_
  simp only [Like, Expr.mapMarks, same]

theorem operand_lambda (stands : Stands read depth outer isRight .test expr) (behind : Behind .test rest) :
    Accepts (operand read) depth
      (Keyword.lambda_.token :: colon.token :: (expr.tokensAt outer isRight ++ rest)) rest
      (Like (.lambda mark .empty expr)) := by
  refine accepts_kind (Keyword.token_kind .lambda_) fun shown kind => ?_
  simp only [kind, lambdaExpr]
  refine accepts_markCurrent fun mark _ => parameters_none.bind fun found last none => ?_
  refine stands.next behind fun body last same => accepts_pure ?_
  simp only [Like, none, Parameters.empty, Expr.mapMarks, same]

end Prefixes

theorem behind_closing (closing : Symbol) (closes : closing.closes) (some : rest ≠ []) :
    Behind .named (closing.token :: rest) := by
  refine behind_symbol closing ?_ ?_ some <;> revert closes <;> cases closing <;> decide

theorem elementsAfter_accepts {others : List Expr}
    (elements : ∀ element ∈ others, Element read depth element) (closes : closing.closes) (some : rest ≠ []) :
    Accepts (elementsAfter read found closing) depth
      (last :: (others.flatMap (comma.token :: ·.tokensAt named false) ++ closing.token :: rest)) rest
      fun all => all.map .unmarked = found.unmarked :: others.map .unmarked := by
  have close : closing.token.kind ≠ .symbol .comma := by
    revert closes
    cases closing <;> decide
  refine accepts_turns fun count enough => ?_
  refine (itemsAfterCommas_accepts (fun element member => (elements element member).reads) ?_
    ⟨_, _, rfl, close⟩ (behind_closing closing closes some)
    enough).bind fun all last same => ?_
  · intro element member
    obtain ⟨first, others, shape, opening⟩ := (elements element member).starts
    exact ⟨first, others, shape, opening.ne_closing closes⟩
  · refine accepts_expect rfl (accepts_pure ?_)
    rw [map_cons, same]

theorem tells_clauseAhead_behind (behind : Behind level rest) : Tells clauseAhead (token :: rest) false := by
  obtain ⟨first, second, others, rfl⟩ := behind.two
  have plain := behind.plain first rfl
  simp only [mem_cons, not_or] at plain
  exact tells_clauseAhead plain.2.2.1 plain.2.2.2.1

theorem operand_list (elements : ∀ element ∈ all, Element read depth element) (some : rest ≠ []) :
    Accepts (operand read) depth (between .openBracket
        (commaTokens (all.map (Expr.tokensAt named false))) .closeBracket ++ rest) rest
      (Like (.list mark all .load)) := by
  rw [between_append]
  refine accepts_kind rfl fun shown kind => ?_
  simp only [kind, listDisplay]
  cases all with
  | nil =>
    refine accepts_markCurrent fun mark _ => accepts_if (tells_aheadIs rfl) ?_
    exact accepts_advance (accepts_pure rfl)
  | cons first others =>
    have behind := behind_items (Expr.tokensAt named false) others (behind_closing .closeBracket rfl some)
    have stands := elements first mem_cons_self
    obtain ⟨head, tail, shape, opening⟩ := stands.starts
    rw [commaTokens_cons, append_assoc]
    refine accepts_markCurrent fun mark _ => accepts_else ?_ (stands.next behind fun found last same => ?_)
    · rw [shape]
      exact tells_aheadIs (opening.ne_closing rfl)
    refine accepts_else (tells_clauseAhead_behind behind) ?_
    refine (elementsAfter_accepts (forall_mem_cons.mp elements).2 rfl some).bind fun all last list => accepts_pure ?_
    simp only [Like, Expr.mapMarks, Expr.mapAll_eq_map, list, same, map_cons]

theorem tells_behind_item (write : ι → List Token) (items : List ι) {kind : TokenKind}
    (noComma : kind ≠ .symbol .comma) (noClosing : kind ≠ .symbol closing) :
    Tells (aheadIs kind) (token :: (items.flatMap (comma.token :: write ·) ++ closing.token :: rest))
      false := by
  cases items with
  | nil => exact tells_aheadIs (beq_eq_false_iff_ne.mpr noClosing.symm)
  | cons => exact tells_aheadIs (beq_eq_false_iff_ne.mpr noComma.symm)

/-- Behind a bracket that is not closed at once, the first element is read. -/
theorem accepts_first {kind : TokenKind} {empty special : Mark → Parse Expr}
    {next : Mark → Expr → Parse Expr} (starts : Starts level tokens)
    (reads : ReadsAs read depth named tokens more expr) (closes : closing.closes)
    (other : kind ∈ neverFirst)
    (later : ∀ mark found last, Like expr found → Accepts (next mark found) depth (last :: more) rest good) :
    Accepts (do
      let mark ← markCurrent
      if ← symbolAhead closing then empty mark
      else
        advance
        if ← currentIs kind then special mark
        else next mark (← read named)) depth (token :: (tokens ++ more)) rest good := by
  obtain ⟨head, tail, rfl, opening⟩ := starts
  refine accepts_markCurrent fun mark _ => ?_
  refine accepts_else (tells_aheadIs (opening.ne_closing closes)) (accepts_advance ?_)
  exact accepts_else (tells_currentIs (opening.other other)) (reads.bind (later mark))

theorem setDisplay_accepts (elements : ∀ element ∈ all, Element read depth element)
    (nonempty : all ≠ []) (some : rest ≠ []) :
    Accepts (braceDisplay read) depth (between .openBrace
        (commaTokens (all.map (Expr.tokensAt named false))) .closeBrace ++ rest) rest
      (Like (.set mark all)) := by
  obtain ⟨first, others, rfl⟩ := exists_cons_of_ne_nil nonempty
  have behind := behind_items (Expr.tokensAt named false) others (behind_closing .closeBrace rfl some)
  have stands := elements first mem_cons_self
  rw [between_append, commaTokens_cons, append_assoc]
  refine accepts_first stands.starts (stands.reads behind) rfl (by decide) fun mark found last same => ?_
  refine accepts_else (tells_behind_item _ others (by decide) (by decide)) ?_
  refine accepts_else (tells_clauseAhead_behind behind) ?_
  refine (elementsAfter_accepts (forall_mem_cons.mp elements).2 rfl some).bind fun all last list => accepts_pure ?_
  simp only [Like, Expr.mapMarks, Expr.mapAll_eq_map, list, same, map_cons]

theorem parenthesized_accepts (reads : ReadsAs read depth named tokens (closeParen.token :: rest) expr)
    (starts : Starts level tokens) (some : rest ≠ []) :
    Accepts (parenthesized read) depth (between .openParen tokens .closeParen ++ rest) rest (Like expr) := by
  rw [between_append]
  refine accepts_first starts reads rfl (by decide) fun mark found last same => ?_
  refine accepts_else (tells_clauseAhead_behind (behind_closing .closeParen rfl some)) ?_
  exact accepts_else (tells_aheadIs rfl) (accepts_expect rfl (accepts_pure same))

theorem elementsAfter_single :
    Accepts (elementsAfter read found .closeParen) depth
      (last :: comma.token :: closeParen.token :: rest) rest
      fun all => all.map .unmarked = [found.unmarked] := by
  have none {count : Nat} (enough : (last :: comma.token :: closeParen.token :: rest).length ≤ count) :
      Accepts (itemsAfterCommas (· == .symbol .closeParen) (read .named) count) depth
        (last :: comma.token :: closeParen.token :: rest)
        (closeParen.token :: rest) (· = []) := by
    cases count with
    | zero => simp at enough
    | succ =>
      refine accepts_if (tells_aheadIs rfl) (accepts_advance (accepts_ahead fun shown same => ?_))
      rw [kind_of_placeless same]
      exact accepts_pure rfl
  refine accepts_turns fun count enough => (none enough).bind fun all last empty => ?_
  refine accepts_expect rfl (accepts_pure ?_)
  rw [empty]
  rfl

theorem parenthesized_tuple {first : Expr} {others : List Expr}
    (reads : ReadsAs read depth named tokens (comma.token :: more) first)
    (starts : Starts level tokens) (some : more ≠ [])
    (elements : ∀ found last, Accepts (elementsAfter read found .closeParen) depth
      (last :: comma.token :: more) rest
      fun all => all.map .unmarked = found.unmarked :: others.map .unmarked) :
    Accepts (parenthesized read) depth (openParen.token :: (tokens ++ comma.token :: more)) rest
      (Like (.tuple mark (first :: others) .load)) := by
  refine accepts_first starts reads rfl (by decide) fun mark found last same => ?_
  refine accepts_else (tells_clauseAhead_behind (behind_symbol .comma rfl (by decide) some)) ?_
  refine accepts_if (tells_aheadIs rfl) ?_
  refine (elements found last).bind fun all last list => accepts_pure ?_
  simp only [Like, Expr.mapMarks, Expr.mapAll_eq_map, list, same, map_cons]

theorem tuple_accepts (elements : ∀ element ∈ all, Element read depth element) (some : rest ≠ []) :
    Accepts (parenthesized read) depth ((Expr.tuple mark all .load).tokens ++ rest) rest
      (Like (.tuple mark all .load)) := by
  cases all with
  | nil =>
    refine accepts_markCurrent fun mark _ => accepts_if (tells_aheadIs rfl) ?_
    exact accepts_advance (accepts_pure rfl)
  | cons first others =>
    have stands := elements first mem_cons_self
    cases others with
    | nil =>
      have behind : Behind .named (comma.token :: closeParen.token :: rest) :=
        behind_symbol .comma rfl (by decide) (by simp)
      rw [Expr.tokens, between_append, append_assoc]
      exact parenthesized_tuple (stands.reads behind) stands.starts (by simp) fun _ _ => elementsAfter_single
    | cons second others =>
      have behind := behind_items (Expr.tokensAt named false) (second :: others)
        (behind_closing .closeParen rfl some)
      have shape : (Expr.tuple mark (first :: second :: others) .load).tokens ++ rest =
          openParen.token :: (first.tokensAt named false ++
            ((second :: others).flatMap (comma.token :: ·.tokensAt named false) ++
              closeParen.token :: rest)) := by
        rw [Expr.tokens, between_append, Expr.tokenLists_eq_map, commaTokens_cons, append_assoc]
        simp
      rw [shape]
      exact parenthesized_tuple (stands.reads behind) stands.starts (by simp)
        fun _ _ => elementsAfter_accepts (forall_mem_cons.mp elements).2 rfl some

/-- An item of a dict display is read as the first one or as a later one. -/
inductive ReadsItem (read : ReadExpr) (depth : Nat) : DictItem → Prop where
  | spread {value : Expr} (stands : Stands read depth .bitOr false .compare value) :
      ReadsItem read depth ⟨none, value⟩
  | keyed {key value : Expr} (firstKey : Stands read depth .test false .named key)
      (laterKey : Stands read depth .test false .test key)
      (stands : Stands read depth .test false .test value) :
      ReadsItem read depth ⟨some key, value⟩

theorem spreadItem_accepts {value : Expr} (stands : Stands read depth .bitOr false .compare value)
    (behind : Behind .compare rest) :
    Accepts (spreadItem read) depth ((DictItem.mk none value).tokens ++ rest) rest
      fun found => found.unmarked = (DictItem.mk none value).unmarked := by
  rw [DictItem.tokens, cons_append]
  refine stands.next behind fun found last same => accepts_pure ?_
  simp only [DictItem.mapMarks, same]

theorem dictItem_accepts {item : DictItem} (readsItem : ReadsItem read depth item)
    (behind : Behind .named rest) :
    Accepts (dictItem read) depth (item.tokens ++ rest) rest fun found => found.unmarked = item.unmarked := by
  cases readsItem with
  | spread stands =>
    refine accepts_if (tells_currentIs rfl) ?_
    exact spreadItem_accepts stands (behind.mono (by decide))
  | keyed firstKey laterKey stands =>
    rename_i key value
    obtain ⟨head, tail, shape, opening⟩ := laterKey.starts
    have colon : Behind named (colon.token :: (value.tokensAt test false ++ rest)) :=
      behind_symbol .colon rfl (by decide) (by simp [stands.starts.ne_nil])
    have first := laterKey.reads (colon.mono (by decide))
    rw [DictItem.tokens, append_assoc, cons_append, shape]
    rw [ReadsAs, shape] at first
    refine accepts_else (tells_currentIs (opening.other (by decide))) ?_
    refine first.bind fun key last same => accepts_expect rfl ?_
    refine stands.next (behind.mono (by decide)) fun value last also => accepts_pure ?_
    simp only [DictItem.mapMarks, Option.map_some, same, also]

theorem ReadsItem.starts {item : DictItem} (readsItem : ReadsItem read depth item) :
    ∃ first others, item.tokens = first :: others ∧ (first.kind == .symbol .closeBrace) = false := by
  cases readsItem with
  | spread => exact ⟨_, _, rfl, rfl⟩
  | keyed firstKey =>
    obtain ⟨head, tail, shape, opening⟩ := firstKey.starts
    exact ⟨head, _, by rw [DictItem.tokens, shape]; rfl, opening.ne_closing rfl⟩

theorem dictAfter_accepts {other : Mark} {found first : DictItem} {others : List DictItem}
    (items : ∀ item ∈ others, ReadsItem read depth item)
    (same : found.unmarked = first.unmarked) (some : rest ≠ []) :
    Accepts (dictAfter read mark found) depth
      (last :: (others.flatMap (comma.token :: ·.tokens) ++ closeBrace.token :: rest))
      rest (Like (.dict other (first :: others))) := by
  refine accepts_turns fun count enough => ?_
  refine (itemsAfterCommas_accepts
    (fun item member rest behind => dictItem_accepts (items item member) behind)
    (fun item member => (items item member).starts) ⟨_, _, rfl, by decide⟩
    (behind_closing .closeBrace rfl some) enough).bind fun all last list => ?_
  refine accepts_expect rfl (accepts_pure ?_)
  simp only [Like, Expr.mapMarks, Expr.mapItems_eq_map, map_cons, list, same]

theorem exprAfterNext_accepts {second : Token} {outer : Level} {isRight : Bool}
    (stands : Stands read depth outer isRight level expr) (behind : Behind level rest) :
    Accepts (exprAfterNext read level) depth (token :: second :: (expr.tokensAt outer isRight ++ rest)) rest
      (Like expr) := by
  have reads := stands.reads behind
  obtain ⟨first, others, shape, _⟩ := stands.starts
  rw [ReadsAs, shape] at reads
  rw [shape]
  exact accepts_advance (accepts_advance reads)

/-- The first key is read before the colon behind it tells a dict from a set. -/
theorem keyedDisplay_accepts {key value : Expr} (firstKey : Stands read depth .test false .named key)
    (stands : Stands read depth .test false .test value) (behind : Behind .named more)
    (items : ∀ mark found last, found.unmarked = (DictItem.mk (some key) value).unmarked →
      Accepts (dictAfter read mark found) depth (last :: more) rest good) :
    Accepts (braceDisplay read) depth
      (openBrace.token :: ((DictItem.mk (some key) value).tokens ++ more)) rest good := by
  have colon : Behind named (colon.token :: (value.tokensAt test false ++ more)) :=
    behind_symbol .colon rfl (by decide) (by simp [stands.starts.ne_nil])
  unfold braceDisplay
  rw [DictItem.tokens, append_assoc, cons_append]
  refine accepts_first firstKey.starts (firstKey.reads colon) rfl (by decide) fun mark key last same => ?_
  refine accepts_if (tells_aheadIs rfl) ?_
  refine (exprAfterNext_accepts stands (behind.mono (by decide))).bind fun value last also => ?_
  refine accepts_else (tells_clauseAhead_behind behind) (items mark _ last ?_)
  simp only [DictItem.mapMarks, Option.map_some, same, also]

theorem dictDisplay_accepts {all : List DictItem}
    (items : ∀ item ∈ all, ReadsItem read depth item) (some : rest ≠ []) :
    Accepts (braceDisplay read) depth
      (between .openBrace (commaTokens (all.map DictItem.tokens)) .closeBrace ++ rest) rest
      (Like (.dict mark all)) := by
  rw [between_append]
  cases all with
  | nil =>
    refine accepts_markCurrent fun mark _ => accepts_if (tells_aheadIs rfl) ?_
    exact accepts_advance (accepts_pure rfl)
  | cons first others =>
    have later := (forall_mem_cons.mp items).2
    have behind := behind_items DictItem.tokens others (behind_closing .closeBrace rfl some)
    rw [commaTokens_cons, append_assoc]
    cases items first mem_cons_self with
    | spread stands =>
      refine accepts_markCurrent fun mark _ => ?_
      refine accepts_else (tells_aheadIs rfl) (accepts_advance ?_)
      refine accepts_if (tells_currentIs rfl) ?_
      refine (spreadItem_accepts stands (behind.mono (by decide))).bind fun found last same => ?_
      exact dictAfter_accepts later same some
    | keyed firstKey _ stands =>
      exact keyedDisplay_accepts firstKey stands behind fun _ _ _ same => dictAfter_accepts later same some

end Items

end Stubwise.Parser
