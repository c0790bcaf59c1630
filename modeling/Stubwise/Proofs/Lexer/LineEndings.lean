import Stubwise.Proofs.Lexer.Carriage
import Stubwise.Proofs.Lexer.Shift

/-!
Line ends may be written with a carriage return: the tokens of the text are the same, unless a
literal with one quote goes on over a line end.
-/

namespace Stubwise

open List Text

open Text (crlf InStep crlf_cons crlf_lineEnd)

variable {inBrackets : Bool} {c quote : Char} {after rest : List Char} {token : Token}

namespace Cursor

variable {cursor other : Cursor}

theorem next_rest (shape : cursor.rest = c :: rest) : cursor.next.rest = rest := by
  rw [next, shape]

theorem skipComment_inStep (same : other.rest = crlf cursor.rest) :
    InStep cursor.skipComment.rest other.skipComment.rest := by
  rw [skipComment, skipComment, skipWhile_rest, skipWhile_rest, same]
  exact dropWhile_crlf_inStep _ rfl rfl cursor.rest

theorem next_of_inStep (inStep : InStep cursor.rest other.rest) (noReturn : other.current ≠ '\r') :
    (cursor.rest = [] ∧ other.rest = []) ∨
      ∃ c rest, cursor.rest = c :: rest ∧ other.rest = c :: crlf rest := by
  cases shape : cursor.rest with
  | nil =>
    rw [shape] at inStep
    exact .inl ⟨rfl, inStep.nil⟩
  | cons c rest =>
    rw [shape] at inStep
    rcases inStep.cons with ⟨-, same⟩ | ⟨rfl, same | same⟩
    · exact .inr ⟨c, rest, rfl, same⟩
    · exact absurd (current_of_rest same) noReturn
    · exact .inr ⟨'\n', rest, rfl, same⟩

end Cursor

namespace Lexer

variable {cursor other : Cursor}

theorem seekLine_lineEnd (shape : cursor.rest = c :: rest)
    (lineEnd : c = '\r' ∨ c = '\n') : seekLine cursor = seekLine cursor.next := by
  have blanks : cursor.rest.takeWhile isIndentBlank = [] := by
    rw [shape]
    rcases lineEnd with rfl | rfl <;> rfl
  have start : cursor.skipWhile isIndentBlank = cursor := by
    rw [Cursor.skipWhile, blanks]
    rfl
  rw [seekLine_eq, start, shape]
  rcases lineEnd with rfl | rfl <;> rfl

theorem skipBlanks_inStep (inStep : InStep cursor.rest other.rest) :
    other.rest.takeWhile isIndentBlank = cursor.rest.takeWhile isIndentBlank ∧
      InStep (cursor.skipWhile isIndentBlank).rest (other.skipWhile isIndentBlank).rest := by
  rw [Cursor.skipWhile_rest, Cursor.skipWhile_rest]
  generalize cursor.rest = cs at inStep ⊢
  generalize other.rest = ds at inStep ⊢
  cases inStep with
  | before =>
    rw [takeWhile_crlf _ (by decide) (by decide), dropWhile_crlf _ (by decide) (by decide)]
    exact ⟨rfl, .before _⟩
  | between text => exact ⟨rfl, .between text⟩

theorem seekLine_inStep (inStep : InStep cursor.rest other.rest) :
    (seekLine other).1 = (seekLine cursor).1 ∧ InStep (seekLine cursor).2.rest (seekLine other).2.rest := by
  fun_induction seekLine cursor generalizing other with
  | case1 cursor blanks first =>
    rename_i shape
    obtain ⟨-, after⟩ := skipBlanks_inStep inStep
    have ended : (other.skipWhile isIndentBlank).rest = [] := InStep.nil (shape ▸ after)
    rw [seekLine_eq, ended]
    exact ⟨rfl, by rw [shape, ended]; exact .before []⟩
  | case2 cursor blanks first c rest shape comment =>
    rename_i ih
    obtain ⟨-, after⟩ := skipBlanks_inStep inStep
    cases eq_of_beq comment
    rcases InStep.cons (shape ▸ after) with ⟨-, same⟩ | ⟨lineEnd, -⟩
    · rw [seekLine_eq, same]
      refine ih (Cursor.skipComment_inStep ?_)
      rw [same, shape, crlf_cons (by decide)]
    · exact absurd lineEnd (by decide)
  | case3 cursor blanks first c rest shape comment lineEnd =>
    rename_i ih
    obtain ⟨-, after⟩ := skipBlanks_inStep inStep
    have next : first.next.rest = rest := Cursor.next_rest shape
    rcases InStep.cons (shape ▸ after) with ⟨inLine, same⟩ | ⟨rfl, same⟩
    · have skipped : seekLine other = seekLine (other.skipWhile isIndentBlank).next := by
        rw [seekLine_eq, same]
        simp only [comment, lineEnd, Bool.false_eq_true, if_false, if_true]
      rw [skipped]
      refine ih ?_
      rw [next, Cursor.next_rest same]
      exact .before rest
    · have skipped : seekLine other = seekLine (other.skipWhile isIndentBlank).next := by
        rcases same with same | same <;> (rw [seekLine_eq, same]; rfl)
      rw [skipped]
      rcases same with same | same
      · rw [seekLine_lineEnd (Cursor.next_rest same) (.inr rfl)]
        refine ih ?_
        rw [next, Cursor.next_rest (Cursor.next_rest same)]
        exact .before rest
      · refine ih ?_
        rw [next, Cursor.next_rest same]
        exact .before rest
  | case4 cursor blanks first c rest shape comment lineEnd =>
    rename_i atEnd
    obtain ⟨-, after⟩ := skipBlanks_inStep inStep
    rcases InStep.cons (shape ▸ after) with ⟨inLine, same⟩ | ⟨rfl, -⟩
    · rw [seekLine_eq, same]
      simp only [comment, lineEnd, atEnd, Bool.false_eq_true, if_false, if_true, true_and]
      exact after
    · simp at lineEnd
  | case5 cursor blanks measure first c rest shape comment lineEnd =>
    rename_i atEnd
    obtain ⟨width, after⟩ := skipBlanks_inStep inStep
    rcases InStep.cons (shape ▸ after) with ⟨inLine, same⟩ | ⟨rfl, -⟩
    · rw [seekLine_eq, same]
      simp only [comment, lineEnd, atEnd, Bool.false_eq_true, if_false, width]
      exact ⟨rfl, after⟩
    · simp at lineEnd

theorem skipTrivia_space
    (shape : cursor.rest = c :: rest) (blank : (isBlank c || (inBrackets && c == '\n')) = true) :
    skipTrivia inBrackets cursor = skipTrivia inBrackets cursor.next := by
  rw [skipTrivia_eq, shape]
  simp only [blank, if_true]

theorem skipTrivia_ended (ended : cursor.rest = []) : skipTrivia inBrackets cursor = cursor := by
  rw [skipTrivia_eq, ended]

theorem skipTrivia_comment (shape : cursor.rest = '#' :: rest) :
    skipTrivia inBrackets cursor = skipTrivia inBrackets cursor.skipComment := by
  rw [skipTrivia_eq, shape]
  cases inBrackets <;> rfl

theorem skipTrivia_join (shape : cursor.rest = '\\' :: rest) (joins : joinLength ('\\' :: rest) ≠ 0) :
    skipTrivia inBrackets cursor =
      skipTrivia inBrackets (cursor.next.drop (joinLength ('\\' :: rest) - 1)) := by
  have joins : (joinLength ('\\' :: rest) != 0) = true := by simpa using joins
  rw [skipTrivia_eq, shape]
  simp only [joins, if_true]
  cases inBrackets <;> rfl

theorem skipTrivia_stays
    (shape : cursor.rest = c :: rest) (token : (isBlank c || (inBrackets && c == '\n')) = false)
    (comment : (c == '#') = false) (join : joinLength (c :: rest) = 0) :
    skipTrivia inBrackets cursor = cursor := by
  rw [skipTrivia_eq, shape]
  simp [token, comment, join]

theorem joinLength_cases (cs : List Char) :
    (∃ rest, cs = '\\' :: '\n' :: rest ∧ joinLength cs = 2) ∨
      (∃ rest, cs = '\\' :: '\r' :: '\n' :: rest ∧ joinLength cs = 3) ∨ joinLength cs = 0 := by
  unfold joinLength
  split
  next rest => exact .inl ⟨rest, rfl, rfl⟩
  next rest => exact .inr (.inl ⟨rest, rfl, rfl⟩)
  next => exact .inr (.inr rfl)

theorem joinLength_crlf (plain : '\r' ∉ rest)
    (none : joinLength (c :: rest) = 0) : joinLength (c :: crlf rest) = 0 := by
  rcases joinLength_cases (c :: crlf rest) with ⟨after, shape, -⟩ | ⟨after, shape, -⟩ | same
  · obtain ⟨-, behind⟩ := cons.inj shape
    rcases Literal.crlf_eq_cons behind with ⟨_, -, carriage, -⟩ | ⟨later, rfl, -⟩
    · exact absurd carriage (by decide)
    · exact absurd (cons.inj behind).1 (by decide)
  · obtain ⟨rfl, behind⟩ := cons.inj shape
    rcases Literal.crlf_eq_cons behind with ⟨later, rfl, -⟩ | ⟨later, rfl, -⟩
    · cases none
    · exact absurd mem_cons_self plain
  · exact same

theorem skipTrivia_inStep (plain : '\r' ∉ cursor.rest) (inStep : InStep cursor.rest other.rest) :
    InStep (skipTrivia inBrackets cursor).rest (skipTrivia inBrackets other).rest := by
  fun_induction skipTrivia inBrackets cursor generalizing other with
  | case1 _ shape =>
    rw [shape] at inStep
    rw [skipTrivia_ended inStep.nil, inStep.nil, shape]
    exact .before []
  | case2 cursor c rest shape blank ih =>
    have next := Cursor.next_rest shape
    have behind : '\r' ∉ cursor.next.rest := (Cursor.Reaches.next shape).not_mem plain
    have goesOn {later : Cursor} (same : later.rest = crlf rest) :
        InStep (skipTrivia inBrackets cursor.next).rest (skipTrivia inBrackets later).rest :=
      ih behind (by rw [next, same]; exact .before rest)
    rw [shape] at inStep
    rcases inStep.cons with ⟨-, same⟩ | ⟨rfl, same | same⟩
    · rw [skipTrivia_space same blank]
      exact goesOn (Cursor.next_rest same)
    · rw [skipTrivia_space same rfl, skipTrivia_space (Cursor.next_rest same) blank]
      exact goesOn (Cursor.next_rest (Cursor.next_rest same))
    · rw [skipTrivia_space same blank]
      exact goesOn (Cursor.next_rest same)
  | case3 cursor _ rest shape _ comment ih =>
    cases eq_of_beq comment
    have behind : '\r' ∉ cursor.skipComment.rest := (Cursor.Reaches.skipWhile _ cursor).not_mem plain
    rw [shape] at inStep
    rcases inStep.cons with ⟨-, same⟩ | ⟨lineEnd, -⟩
    · rw [skipTrivia_comment same]
      refine ih behind (Cursor.skipComment_inStep ?_)
      rw [same, shape, crlf_cons (by decide)]
    · exact absurd lineEnd (by decide)
  | case4 cursor c rest shape blank comment join joined =>
    rename_i ih
    rcases joinLength_cases cursor.rest with ⟨text, split, two⟩ | ⟨text, split, -⟩ | none
    · rw [split] at inStep
      rcases inStep.cons with ⟨-, same⟩ | ⟨lineEnd, -⟩
      · have behind : (cursor.next.drop (join - 1)).rest = text := by
          rw [Cursor.drop_rest, Cursor.next_rest split, show join = 2 from two]
          rfl
        have later : (other.next.drop 2).rest = crlf text := by
          rw [Cursor.drop_rest, Cursor.next_rest same]
          rfl
        rw [skipTrivia_join same (Nat.succ_ne_zero 2)]
        refine ih ?_ ?_
        · rw [behind]
          exact fun member => plain (by rw [split]; simp [member])
        · rw [behind]
          exact later ▸ .before text
      · exact absurd lineEnd (by decide)
    · exact absurd (by rw [split]; simp) plain
    · exact absurd none (by simpa using joined)
  | case5 cursor c rest shape blank comment join =>
    rename_i joined
    rw [shape] at inStep plain
    have comment : (c == '#') = false := eq_false_of_ne_true comment
    have blank : (isBlank c || (inBrackets && c == '\n')) = false := eq_false_of_ne_true blank
    rcases inStep.cons with ⟨inLine, same⟩ | ⟨rfl, same | same⟩
    · have none : joinLength (c :: crlf rest) = 0 :=
        joinLength_crlf (fun member => plain (mem_cons_of_mem _ member)) (by simpa [join, shape] using joined)
      rw [skipTrivia_stays same blank comment none, shape]
      exact inStep
    · rw [skipTrivia_space same rfl, skipTrivia_stays (Cursor.next_rest same) blank rfl rfl,
        Cursor.next_rest same, shape]
      exact .between rest
    · rw [skipTrivia_stays same blank rfl rfl, shape]
      exact inStep

end Lexer

/-- The kinds whose lexemes may hold carriage returns: literals of texts, and what was refused. -/
def TokenKind.holdsText : TokenKind → Bool
  | .string | .bytes | .fstring | .illegal => true
  | _ => false

namespace Token

/-- The same kind of token. The lexeme is the same too, if the text of the token is not free. -/
structure Alike (token other : Token) : Prop where
  kind : other.kind = token.kind
  lexeme : token.kind.holdsText = false → other.lexeme = token.lexeme

theorem alike_of_holdsText {other : Token} (kind : other.kind = token.kind)
    (holds : token.kind.holdsText) : token.Alike other where
  kind := kind
  lexeme none := by
    rw [holds] at none
    cases none

/-- Whether the token is a literal that opens with three quotes. -/
def isLong (token : Token) : Bool :=
  let opening := token.lexeme.toList.dropWhile fun c => c != '"' && c != '\''
  ['"', '"', '"'].isPrefixOf opening || ['\'', '\'', '\''].isPrefixOf opening

theorem quotes_of_isLong {letters taken : List Char}
    (plain : ∀ c ∈ letters, c ≠ '"' ∧ c ≠ '\'') (isQuote : quote = '"' ∨ quote = '\'')
    (lexeme : token.lexeme.toList = letters ++ quote :: taken) (long : token.isLong) :
    [quote, quote].isPrefixOf taken = true := by
  have skipped : (letters ++ quote :: taken).dropWhile (fun c => c != '"' && c != '\'') = quote :: taken := by
    rw [List.dropWhile_append_of_pos fun c member => by simp [plain c member],
      List.dropWhile_cons_of_neg (by rcases isQuote with rfl | rfl <;> decide)]
  rw [isLong, lexeme, skipped] at long
  rcases isQuote with rfl | rfl <;> simpa [List.isPrefixOf] using long

/-- The token does not go on over a line end, unless it is a literal with three quotes. -/
def StaysOnLine (token : Token) : Prop :=
  '\n' ∈ token.lexeme.toList → token.kind = .newline ∨ token.isLong = true

instance (token : Token) : Decidable token.StaysOnLine := inferInstanceAs (Decidable (_ → _))

end Token

namespace Lexer

section Readers

variable {start other : Cursor} {c : Char} {rest : List Char}

structure ReadAlike (read other : Token × Cursor) : Prop where
  token : read.1.Alike other.1
  rest : InStep read.2.rest other.2.rest

theorem readNumber_alike (same : other.rest = crlf start.rest) :
    ReadAlike (readNumber start) (readNumber other) := by
  obtain ⟨scanned, single⟩ := Literal.scanNumber_crlf start.rest
  have lexeme {length : Nat} (inLine : '\n' ∉ start.rest.take length) :
      other.textTo (other.drop length) = start.textTo (start.drop length) := by
    rw [(Cursor.Reaches.drop other length).textTo, (Cursor.Reaches.drop start length).textTo, same,
      take_crlf inLine]
  have moved {length : Nat} (inLine : '\n' ∉ start.rest.take length) :
      InStep (start.drop length).rest (other.drop length).rest := by
    rw [Cursor.drop_rest, Cursor.drop_rest, same, drop_crlf inLine]
    exact .before _
  unfold readNumber
  rw [same, scanned]
  cases found : Literal.scanNumber start.rest with
  | number =>
    rw [found] at single
    exact ⟨⟨rfl, fun _ => lexeme single⟩, moved single⟩
  | badInteger length | badNumber length =>
    rw [found] at single
    exact ⟨Token.alike_of_holdsText rfl rfl, moved single⟩

theorem operators_inLine : ∀ operator ∈ operators, '\n' ∉ operator.1.toList ∧ '\r' ∉ operator.1.toList := by
  decide

theorem readOperator_alike (shape : start.rest = c :: rest) (inLine : c ≠ '\n')
    (same : other.rest = crlf start.rest) : ReadAlike (readOperator start) (readOperator other) := by
  have found : (operators.find? fun operator => operator.1.toList.isPrefixOf other.rest) =
      operators.find? fun operator => operator.1.toList.isPrefixOf start.rest := by
    rw [← List.head?_filter, ← List.head?_filter]
    refine congrArg List.head? (List.filter_congr fun operator member => ?_)
    obtain ⟨lineEnd, carriage⟩ := operators_inLine operator member
    rw [same, isPrefixOf_crlf lineEnd carriage]
  unfold readOperator
  rw [found]
  cases known : operators.find? fun operator => operator.1.toList.isPrefixOf start.rest with
  | some operator =>
    obtain ⟨text, kind⟩ := operator
    have single : '\n' ∉ start.rest.take text.length := by
      have accepted := List.find?_some known
      rw [← String.length_toList, ← List.prefix_iff_eq_take.mp (List.isPrefixOf_iff_prefix.mp accepted)]
      exact (operators_inLine _ (List.mem_of_find?_eq_some known)).1
    refine ⟨⟨rfl, fun _ => rfl⟩, ?_⟩
    rw [Cursor.drop_rest, Cursor.drop_rest, same, drop_crlf single]
    exact .before _
  | none =>
    refine ⟨Token.alike_of_holdsText rfl rfl, ?_⟩
    rw [shape, crlf_cons inLine] at same
    rw [Cursor.next_rest shape, Cursor.next_rest same]
    exact .before rest

section Strings

variable {style : Literal.Style} {cursor behind : Cursor} {letters : List Char}

/-- The quotes that a literal opens with, and the body behind them. -/
def openingLength (cursor : Cursor) : Nat :=
  if cursor.peek 1 == cursor.current && cursor.peek 2 == cursor.current then 3 else 1

def scannedBody (style : Literal.Style) (cursor : Cursor) : Literal.Body :=
  Literal.scanBody style cursor.current
    (cursor.peek 1 == cursor.current && cursor.peek 2 == cursor.current)
    (cursor.drop (openingLength cursor)).rest

theorem readString_eq (style : Literal.Style) (start cursor : Cursor) :
    let stop := (cursor.drop (openingLength cursor)).drop (scannedBody style cursor).length
    (readString style start cursor).2 = stop ∧ (readString style start cursor).1.lexeme = start.textTo stop ∧
      (readString style start cursor).1.kind =
        if (scannedBody style cursor).isClosed then style.kind else .illegal := by
  unfold readString scannedBody openingLength
  dsimp only
  generalize Literal.scanBody style _ _ _ = scanned
  cases scanned <;> exact ⟨rfl, rfl, rfl⟩

theorem holdsText_string (style : Literal.Style) (closed : Bool) :
    (if closed then style.kind else .illegal : TokenKind).holdsText = true := by
  unfold Literal.Style.kind
  split_ifs <;> rfl

theorem scannedBody_inside (reached : start.Reaches letters cursor)
    (plain : ∀ c ∈ letters, c ≠ '"' ∧ c ≠ '\'') (isQuote : quote = '"' ∨ quote = '\'')
    (shape : cursor.rest = quote :: after) (stays : (readString style start cursor).1.StaysOnLine) :
    Literal.Inside ([quote, quote].isPrefixOf after) (scannedBody style cursor).length
      (cursor.drop (openingLength cursor)).rest := by
  have inText : quote ≠ endChar := by rcases isQuote with rfl | rfl <;> decide
  have current := Cursor.current_of_rest shape
  obtain ⟨-, lexeme, kind⟩ := readString_eq style start cursor
  cases triple : [quote, quote].isPrefixOf after with
  | true => exact .inl rfl
  | false =>
    refine .inr fun member => ?_
    have one : openingLength cursor = 1 := by
      rw [openingLength, current, Cursor.peek_quotes inText shape, triple]
      rfl
    have opening : (cursor.drop 1).rest = after := by
      rw [Cursor.drop_rest, shape, List.drop_succ_cons, List.drop_zero]
    rw [one, opening] at member
    rw [one] at lexeme
    have taken := reached.trans ((Cursor.Reaches.drop cursor 1).trans
      (Cursor.Reaches.drop (cursor.drop 1) (scannedBody style cursor).length))
    rw [taken.textTo, shape, opening, List.take_succ_cons, List.take_zero] at lexeme
    have whole := congrArg String.toList lexeme
    rw [String.toList_ofList, List.cons_append, List.nil_append] at whole
    rcases stays (by rw [whole]; simp [member]) with newline | long
    · rw [kind] at newline
      have holds := holdsText_string style (scannedBody style cursor).isClosed
      rw [newline] at holds
      cases holds
    · have three := Token.quotes_of_isLong plain isQuote whole long
      have first := (List.isPrefixOf_iff_prefix.mp three).trans (List.take_prefix _ after)
      rw [List.isPrefixOf_iff_prefix.mpr first] at triple
      cases triple

theorem readString_alike (reached : start.Reaches letters cursor) (plain : ∀ c ∈ letters, c ≠ '"' ∧ c ≠ '\'')
    (isQuote : cursor.current = '"' ∨ cursor.current = '\'')
    (same : behind.rest = crlf cursor.rest) (stays : (readString style start cursor).1.StaysOnLine) :
    ReadAlike (readString style start cursor) (readString style other behind) := by
  obtain ⟨quote, after, shape, current⟩ : ∃ quote after, cursor.rest = quote :: after ∧
      cursor.current = quote := by
    have inText : cursor.atEnd = false := by
      rcases isQuote with quote | quote <;> rw [Cursor.atEnd, quote] <;> rfl
    obtain ⟨quote, after, shape, -⟩ := Cursor.exists_rest_of_not_atEnd inText
    exact ⟨quote, after, shape, Cursor.current_of_rest shape⟩
  rw [current] at isQuote
  have inText : quote ≠ endChar := by rcases isQuote with rfl | rfl <;> decide
  have inLine : quote ≠ '\n' := by rcases isQuote with rfl | rfl <;> decide
  have noReturn : quote ≠ '\r' := by rcases isQuote with rfl | rfl <;> decide
  have shapeOther : behind.rest = quote :: crlf after := by rw [same, shape, crlf_cons inLine]
  have currentOther := Cursor.current_of_rest shapeOther
  have triple : [quote, quote].isPrefixOf (crlf after) = [quote, quote].isPrefixOf after :=
    isPrefixOf_crlf (by simpa using Ne.symm inLine) (by simpa using Ne.symm noReturn) after
  have inside := scannedBody_inside reached plain isQuote shape stays
  have wide : openingLength cursor = if [quote, quote].isPrefixOf after then 3 else 1 := by
    rw [openingLength, current, Cursor.peek_quotes inText shape]
  have wideOther : openingLength behind = openingLength cursor := by
    rw [openingLength, currentOther, Cursor.peek_quotes inText shapeOther, triple, wide]
  have opening : '\n' ∉ cursor.rest.take (openingLength cursor) := by
    rw [wide, shape]
    exact Literal.lineEnd_not_mem_quotes isQuote (Bool.not_or_self _)
  have body : (behind.drop (openingLength behind)).rest = crlf (cursor.drop (openingLength cursor)).rest := by
    rw [Cursor.drop_rest, Cursor.drop_rest, wideOther, same, drop_crlf opening]
  have scanned : Literal.Body.Same (cursor.drop (openingLength cursor)).rest
      (behind.drop (openingLength behind)).rest (scannedBody style cursor)
      (scannedBody style behind) := by
    rw [scannedBody, current, Cursor.peek_quotes inText shape] at inside
    rw [scannedBody, current, Cursor.peek_quotes inText shape, scannedBody, currentOther,
      Cursor.peek_quotes inText shapeOther, triple, body]
    exact Literal.scanBody_crlf isQuote _ inside
  obtain ⟨stop, -, kind⟩ := readString_eq style start cursor
  obtain ⟨stopOther, -, kindOther⟩ := readString_eq style other behind
  refine ⟨Token.alike_of_holdsText ?_ ?_, ?_⟩
  · rw [kindOther, kind, scanned.closed]
  · rw [kind]
    exact holdsText_string style _
  · rw [stop, stopOther, Cursor.drop_rest (cursor.drop _), Cursor.drop_rest (behind.drop _)]
    exact scanned.rest

end Strings

theorem plain_of_accept {accept : Char → Bool} (double : accept '"' = false)
    (single : accept '\'' = false) (accepted : accept c) : c ≠ '"' ∧ c ≠ '\'' := by
  constructor <;> rintro rfl <;> simp_all

theorem readWord_alike (shape : start.rest = c :: rest) (letter : isLetter c)
    (same : other.rest = crlf start.rest) (stays : (readWord start).1.StaysOnLine) :
    ReadAlike (readWord start) (readWord other) := by
  have inLine : c ≠ '\n' := by
    rintro rfl
    cases letter
  have shapeOther : other.rest = c :: crlf rest := by rw [same, shape, crlf_cons inLine]
  have reached := (Cursor.Reaches.next shape).trans (Cursor.Reaches.skipWhile isIdentifierPart start.next)
  have reachedOther := (Cursor.Reaches.next shapeOther).trans
    (Cursor.Reaches.skipWhile isIdentifierPart other.next)
  rw [Cursor.next_rest shape] at reached
  rw [Cursor.next_rest shapeOther, takeWhile_crlf _ (by decide) (by decide)] at reachedOther
  have word := reachedOther.textTo.trans reached.textTo.symm
  have behind : (other.next.skipWhile isIdentifierPart).rest =
      crlf (start.next.skipWhile isIdentifierPart).rest := by
    rw [Cursor.skipWhile_rest, Cursor.skipWhile_rest, Cursor.next_rest shape,
      Cursor.next_rest shapeOther, dropWhile_crlf _ (by decide) (by decide)]
  have quoted : ((other.next.skipWhile isIdentifierPart).current == '"' ||
        (other.next.skipWhile isIdentifierPart).current == '\'') =
      ((start.next.skipWhile isIdentifierPart).current == '"' ||
        (start.next.skipWhile isIdentifierPart).current == '\'') := by
    rw [Cursor.current, behind]
    exact headD_crlf (fun c => c == '"' || c == '\'') rfl endChar _
  have plain : ∀ d ∈ [c] ++ rest.takeWhile isIdentifierPart, d ≠ '"' ∧ d ≠ '\'' :=
    List.forall_mem_cons.mpr ⟨plain_of_accept (by decide) (by decide) letter,
      fun d later => plain_of_accept (by decide) (by decide) (List.mem_takeWhile_imp later)⟩
  have unread : InStep (start.next.skipWhile isIdentifierPart).rest
      (other.next.skipWhile isIdentifierPart).rest := behind ▸ .before _
  unfold readWord at stays ⊢
  dsimp only at stays ⊢
  rw [word, quoted]
  by_cases isQuote : ((start.next.skipWhile isIdentifierPart).current == '"' ||
      (start.next.skipWhile isIdentifierPart).current == '\'') = true
  · simp only [if_pos isQuote] at stays ⊢
    cases known : Literal.Style.ofLetters? (start.textTo (start.next.skipWhile isIdentifierPart)) with
    | none => exact ⟨⟨rfl, fun _ => rfl⟩, unread⟩
    | some style =>
      rw [known] at stays
      exact readString_alike reached plain (by simpa using isQuote) behind stays
  · simp only [if_neg isQuote]
    exact ⟨⟨rfl, fun _ => rfl⟩, unread⟩

theorem readToken_alike (shape : start.rest = c :: rest) (inLine : c ≠ '\n')
    (same : other.rest = crlf start.rest) (stays : (readToken start).1.StaysOnLine) :
    ReadAlike (readToken start) (readToken other) := by
  have current := Cursor.current_of_rest shape
  have shapeOther : other.rest = c :: crlf rest := by rw [same, shape, crlf_cons inLine]
  have currentOther := Cursor.current_of_rest shapeOther
  have peek (cursor : Cursor) (c : Char) (rest : List Char) (shape : cursor.rest = c :: rest) :
      cursor.peek 1 = rest.headD endChar := by
    rw [Cursor.peek, shape]
    cases rest <;> rfl
  have number : (c == '.' && isDigit (other.peek 1)) = (c == '.' && isDigit (start.peek 1)) := by
    rw [peek start c rest shape, peek other c _ shapeOther, headD_crlf isDigit rfl]
  unfold readToken at stays ⊢
  dsimp only at stays ⊢
  rw [currentOther, number]
  rw [current] at stays ⊢
  by_cases letter : isLetter c = true
  · simp only [if_pos letter] at stays ⊢
    exact readWord_alike shape letter same stays
  by_cases digit : (isDigit c || (c == '.' && isDigit (start.peek 1))) = true
  · simp only [if_neg letter, if_pos digit]
    exact readNumber_alike same
  by_cases isQuote : (c == '"' || c == '\'') = true
  · simp only [if_neg letter, if_neg digit, if_pos isQuote] at stays ⊢
    exact readString_alike (.refl start) (by simp) (by simpa [current] using isQuote) same stays
  · simp only [if_neg letter, if_neg digit, if_neg isQuote]
    exact readOperator_alike shape inLine same

end Readers

/-- The scanners keep in step over both kinds of line end. -/
theorem lockstep_crlf :
    Lockstep (fun start other => '\r' ∉ start.rest ∧ InStep start.rest other.rest) Token.Alike
      Token.StaysOnLine where
  kind := Token.Alike.kind
  here _ _ := ⟨rfl, fun _ => rfl⟩
  line _ _ _ := ⟨rfl, fun _ => rfl⟩
  seek := by
    rintro start other ⟨plain, inStep⟩
    obtain ⟨width, rest⟩ := seekLine_inStep inStep
    obtain ⟨gap, passes⟩ := seekLine_passes start
    exact ⟨width, passes.reached.not_mem plain, rest⟩
  trivia := by
    rintro start other ⟨plain, inStep⟩ inBrackets
    have rest : InStep (skipTrivia inBrackets start).rest (skipTrivia inBrackets other).rest :=
      skipTrivia_inStep plain inStep
    obtain ⟨gap, passes⟩ := skipTrivia_passes inBrackets start
    refine ⟨⟨passes.reached.not_mem plain, rest⟩, ?_⟩
    rcases Cursor.next_of_inStep rest (skipTrivia_current_ne rfl other) with
      ⟨none, noneOther⟩ | ⟨c, rest, shape, shapeOther⟩
    · rw [Cursor.current, Cursor.current, none, noneOther]
    · rw [Cursor.current_of_rest shape, Cursor.current_of_rest shapeOther]
  next := by
    rintro start other ⟨plain, inStep⟩ lineEnd lineEndOther
    rcases Cursor.next_of_inStep inStep (by rw [lineEndOther]; decide) with
      ⟨none, -⟩ | ⟨c, rest, shape, shapeOther⟩
    · rw [Cursor.current, none] at lineEnd
      cases lineEnd
    · refine ⟨(Cursor.Reaches.next shape).not_mem plain, ?_⟩
      rw [Cursor.next_rest shape, Cursor.next_rest shapeOther]
      exact .before rest
  read := by
    rintro start other ⟨plain, inStep⟩ current inText inLine stays
    obtain ⟨c, rest, shape, -⟩ := Cursor.exists_rest_of_not_atEnd inText
    rw [Cursor.current_of_rest shape] at current inLine
    have noReturn : other.current ≠ '\r' := by
      rw [current]
      rintro rfl
      exact plain (shape ▸ List.mem_cons_self)
    have same : other.rest = crlf start.rest := by
      rcases Cursor.next_of_inStep inStep noReturn with ⟨none, -⟩ | ⟨d, later, shape', same⟩
      · rw [none] at shape
        cases shape
      · cases shape.symm.trans shape'
        rw [shape, same, crlf_cons inLine]
    have read := readToken_alike shape inLine same stays
    obtain ⟨text, -, reached, -⟩ := (readToken_takes shape).reached
    exact ⟨read.token, reached.not_mem plain, read.rest⟩

end Lexer

/-- Line ends with and without carriage returns give the same tokens, if every literal with one quote
stays on its line. -/
theorem tokenize_crlf (source : String) (unix : '\r' ∉ source.toList)
    (stays : ∀ token ∈ tokenize source, token.StaysOnLine) :
    List.Forall₂ Token.Alike (tokenize source) (tokenize (String.ofList (crlf source.toList))) := by
  have along : (Lexer.ofText source).Alongside
      (fun start other => '\r' ∉ start.rest ∧ InStep start.rest other.rest) Token.Alike
      (Lexer.ofText (String.ofList (crlf source.toList))) := by
    rw [Lexer.ofText, Lexer.ofText, String.toList_ofList]
    exact ⟨⟨unix, .before _⟩, rfl, .nil, rfl, rfl, rfl, rfl⟩
  obtain ⟨others, yields, same⟩ :=
    Lexer.lockstep_crlf.yields (Lexer.tokenize_yields source) along stays
  rw [(Lexer.tokenize_yields _).unique yields]
  exact same

/-- An indented block with a literal over two lines, a joined line, a literal that is left open, a
comment, and a call over three lines. -/
theorem tokenize_crlf_sample :
    let source := "if x:\n  y = '''a\nb''' \\\n + \"c\n  # d\nz(\n  1,\n)"
    '\r' ∉ source.toList ∧ (∀ token ∈ tokenize source, token.StaysOnLine) ∧
      List.Forall₂ Token.Alike (tokenize source) (tokenize (String.ofList (crlf source.toList))) := by
  intro source
  have unix : '\r' ∉ source.toList := by decide +kernel
  have stays : ∀ token ∈ tokenize source, token.StaysOnLine := by decide +kernel
  exact ⟨unix, stays, tokenize_crlf source unix stays⟩

/-- A literal with one quote goes on behind a backslash at the end of the line, but not if the line
ends in a carriage return: the escape takes that alone, and the line end cuts the literal off. -/
theorem crlf_cuts_continued_literal :
    let source := "'a\\\nb'\n"
    (tokenize source).map (·.kind) = [.string, .newline, .eof] ∧
      (tokenize (String.ofList (crlf source.toList))).map (·.kind) =
        [.illegal, .newline, .illegal, .newline, .eof] := by
  decide +kernel

end Stubwise
