import Stubwise.Proofs.Lexer.Progress
import Stubwise.Proofs.RoundTrip.Quoted

namespace Stubwise

open List Cursor Literal Text

variable {c : Char} {cursor start : Cursor} {chars rest : List Char} {tokens : List Token}

def Token.placeless (token : Token) : Token :=
  { token with position := {} }

/-- The token of a word: a keyword if there is one of that text, else a name. -/
def Token.word (text : String) : Token :=
  { kind := ((Keyword.ofText? text).map TokenKind.keyword).getD .ident
    lexeme := text, literal := some text }

def Token.int (digits : String) : Token :=
  { kind := .int, lexeme := digits, literal := some digits }

def Token.string (value : String) : Token :=
  { kind := .string, lexeme := quote value, literal := some value }

def Symbol.token (symbol : Symbol) : Token :=
  { kind := .symbol symbol, lexeme := symbol.text, literal := some symbol.text }

def Keyword.token (keyword : Keyword) : Token :=
  .word keyword.text

theorem Keyword.ofText?_text (keyword : Keyword) : Keyword.ofText? keyword.text = some keyword := by
  cases keyword <;> decide

theorem Keyword.token_kind (keyword : Keyword) : keyword.token.kind = .keyword keyword := by
  simp [token, Token.word, ofText?_text]

namespace Lexer

def StartsIn (chars text : List Char) : Prop :=
  ∀ c ∈ text.head?, c ∈ chars

theorem StartsIn.ofCons (listed : c ∈ chars) : StartsIn chars (c :: rest) := by
  rintro d ⟨⟩
  exact listed

def delimiters : List Char :=
  [' ', ',', ':', '(', ')', '[', ']', '\x7b', '\x7d']

structure Spells (text after : List Char) (token : Token) : Prop where
  visible : ∃ c rest, text = c :: rest ∧ isBlank c = false ∧ c ∉ ['\n', '#', '\\', endChar]
  read : ∀ start : Cursor, start.rest = text ++ after →
    (readToken start).1.placeless = token ∧ (readToken start).2.rest = after

variable {text after : List Char} {token : Token}

theorem takeWhile_left {accept : Char → Bool} (accepted : ∀ c ∈ text, accept c = true)
    (refused : ∀ c ∈ after.head?, accept c = false) :
    (text ++ after).takeWhile accept = text := by
  rw [takeWhile_append_of_pos accepted]
  cases after with
  | nil => simp
  | cons c => simp [refused c rfl]

theorem Reaches.rest_eq {stop : Cursor} (reached : start.Reaches text stop)
    (shape : start.rest = text ++ after) : stop.rest = after :=
  append_cancel_left (reached.rest.symm.trans shape)

theorem StartsIn.mono {more : List Char} (starts : StartsIn chars after)
    (subset : ∀ c ∈ chars, c ∈ more) : StartsIn more after :=
  fun c first => subset c (starts c first)

theorem StartsIn.forall {holds : Char → Prop} (starts : StartsIn chars after)
    (each : ∀ c ∈ chars, holds c) : ∀ c ∈ after.head?, holds c :=
  fun c first => each c (starts c first)

theorem StartsIn.headD_mem (starts : StartsIn chars after) : after.headD endChar ∈ endChar :: chars := by
  cases after with
  | nil => exact mem_cons_self
  | cons c => exact mem_cons_of_mem _ (starts c rfl)

theorem visible_of_isLetter (letter : isLetter c) : isBlank c = false ∧ c ∉ ['\n', '#', '\\', endChar] := by
  have other (d : Char) (refused : isLetter d = false) : c ≠ d := by
    rintro rfl
    rw [letter] at refused
    cases refused
  refine ⟨?_, ?_⟩
  · simp [isBlank, other ' ' (by decide), other '\t' (by decide), other '\r' (by decide),
      other (Char.ofNat 12) (by decide)]
  · simp [other '\n' (by decide), other '#' (by decide), other '\\' (by decide), other endChar (by decide)]

theorem spells_word {tail : List Char} (letter : isLetter c)
    (parts : ∀ d ∈ tail, isIdentifierPart d = true) (stops : StartsIn ('.' :: '=' :: delimiters) after) :
    Spells (c :: tail) after (.word (String.ofList (c :: tail))) where
  visible := ⟨c, tail, rfl, visible_of_isLetter letter⟩
  read start shape := by
    have first := Cursor.Reaches.next shape
    have others := Cursor.Reaches.skipWhile isIdentifierPart start.next
    have tailNext : start.next.rest = tail ++ after := Reaches.rest_eq first shape
    rw [tailNext, takeWhile_left parts (stops.forall (forall_of_all (by decide)))] at others
    have word := first.trans others
    have left := Reaches.rest_eq word shape
    have quotes : ∀ c ∈ endChar :: '.' :: '=' :: delimiters, c ∉ ['"', '\''] := forall_of_all (by decide)
    have unquoted : (start.next.skipWhile isIdentifierPart).current ∉ ['"', '\''] := by
      rw [Cursor.current, left]
      exact quotes _ stops.headD_mem
    have read : readToken start = readWord start := by
      simp [readToken, current_of_rest shape, letter]
    rw [read]
    simp only [mem_cons, not_mem_nil, or_false, not_or] at unquoted
    simp only [readWord, word.textTo, beq_iff_eq, unquoted, Bool.or_eq_true, or_false, if_false]
    refine ⟨?_, left⟩
    simp only [Token.placeless, Token.word, singleton_append]
    cases Keyword.ofText? (String.ofList (c :: tail)) <;> rfl

def decimalDigits : List Char :=
  ['0', '1', '2', '3', '4', '5', '6', '7', '8', '9']

section Digits

variable {digits : List Char} (decimal : ∀ d ∈ digits, isDigit d = true)
  (stops : StartsIn delimiters after)

theorem mem_of_isDigit {d : Char} (digit : isDigit d) : d ∈ decimalDigits := by
  have bounds : 48 ≤ d.toNat ∧ d.toNat ≤ 57 := by
    simp only [isDigit, Bool.and_eq_true, decide_eq_true_eq] at digit
    exact digit
  have each : ∀ code < 58, 48 ≤ code → Char.ofNat code ∈ decimalDigits := by decide
  rw [← Char.ofNat_toNat d]
  exact each d.toNat (by omega) bounds.1

include decimal stops in
theorem digitRun_digits : digitRun (digits ++ after) = digits.length := by
  induction digits with
  | nil =>
    cases after with
    | nil => rfl
    | cons c =>
      have each : ∀ c ∈ delimiters, isDigit c = false ∧ c ≠ '_' := forall_of_all (by decide)
      obtain ⟨other, joined⟩ := each c (stops c rfl)
      simp [digitRun, other, joined]
  | cons d _ ih =>
    have rest := ih (forall_mem_cons.mp decimal).2
    simp [digitRun, decimal d mem_cons_self, rest]

include decimal stops in
theorem scanDecimal_digits : scanDecimal (digits ++ after) = .number .int digits.length := by
  have each : ∀ c ∈ endChar :: delimiters, (c == '.') = false ∧ (c == 'e') = false ∧
      (c == 'E') = false ∧ (c == 'j') = false ∧ (c == 'J') = false ∧ isLetter c = false :=
    forall_of_all (by decide)
  obtain ⟨point, small, large, smallUnit, largeUnit, letter⟩ := each _ stops.headD_mem
  have exponent : exponentLength after = 0 := by
    cases after with
    | nil => rfl
    | cons =>
      simp only [headD_cons] at small large
      simp [exponentLength, small, large]
  simp only [scanDecimal, fractionLength, hasPoint, suffixLength, isImaginary,
    digitRun_digits decimal stops, drop_left, point, exponent, smallUnit, largeUnit, letter,
    Bool.false_and, Bool.false_eq_true, Bool.or_self, bne_self_eq_false, if_false, drop_zero, Nat.add_zero]

include decimal stops in
theorem scanNumber_digits : scanNumber (digits ++ after) = .number .int digits.length := by
  rw [← scanDecimal_digits decimal stops]
  unfold scanNumber
  split
  · rename_i mark rest shape
    have unmarked : radixOf? mark = none := by
      cases digits with
      | nil =>
        rw [nil_append] at shape
        exact absurd (stops '0' (by rw [shape]; rfl)) (by decide)
      | cons d digits =>
        have second : digits ++ after = mark :: rest := (cons.inj shape).2
        cases digits with
        | nil =>
          have each : ∀ c ∈ delimiters, radixOf? c = none := forall_of_all (by decide)
          exact each mark (stops mark (by rw [nil_append] at second; rw [second]; rfl))
        | cons other =>
          obtain ⟨rfl, _⟩ := cons.inj second
          have each : ∀ d ∈ decimalDigits, radixOf? d = none := forall_of_all (by decide)
          exact each other (mem_of_isDigit (decimal other (by simp)))
    rw [unmarked]
  · rfl

include decimal stops in
theorem spells_int (nonempty : digits ≠ []) : Spells digits after (.int (String.ofList digits)) where
  visible := by
    obtain ⟨d, rest, rfl⟩ := exists_cons_of_ne_nil nonempty
    have each : ∀ d ∈ decimalDigits, isBlank d = false ∧ d ∉ ['\n', '#', '\\', endChar] :=
      forall_of_all (by decide)
    exact ⟨d, rest, rfl, each d (mem_of_isDigit (decimal d mem_cons_self))⟩
  read start shape := by
    obtain ⟨d, rest, rfl⟩ := exists_cons_of_ne_nil nonempty
    have digit := decimal d mem_cons_self
    have each : ∀ d ∈ decimalDigits, isLetter d = false := forall_of_all (by decide)
    have read : readToken start = readNumber start := by
      simp [readToken, current_of_rest shape, digit, each d (mem_of_isDigit digit)]
    have reached := Cursor.Reaches.drop start (d :: rest).length
    rw [shape, take_left] at reached
    have clean : withoutUnderscores (String.ofList (d :: rest)) = String.ofList (d :: rest) := by
      have plain : ∀ d ∈ decimalDigits, d ≠ '_' := forall_of_all (by decide)
      rw [withoutUnderscores, String.toList_ofList, filter_eq_self.mpr]
      intro c member
      simpa using plain c (mem_of_isDigit (decimal c member))
    rw [read, readNumber, shape, scanNumber_digits decimal stops]
    dsimp only
    rw [reached.textTo, clean]
    exact ⟨rfl, Reaches.rest_eq reached shape⟩

end Digits

section Quoted

variable {printable : Char → Bool} {cs : List Char}

theorem peek_quoted (stops : StartsIn ('.' :: delimiters) after)
    (shape : start.rest = '"' :: (cs.flatMap (escapedChar printable '"') ++ '"' :: after)) :
    (start.peek 1 == '"' && start.peek 2 == '"') = false := by
  rw [Bool.and_eq_false_iff]
  cases cs with
  | nil =>
    right
    have each : ∀ c ∈ endChar :: '.' :: delimiters, (c == '"') = false := forall_of_all (by decide)
    have third : start.peek 2 = after.headD endChar := by
      rw [peek, shape, headD_eq_head?_getD, head?_eq_getElem?]
      rfl
    rw [third]
    exact each _ stops.headD_mem
  | cons c =>
    obtain ⟨first, rest, escaped, other⟩ := escapedChar_head printable c
    have second : start.peek 1 = first := by
      rw [peek, shape, flatMap_cons, escaped]
      rfl
    simp [second, other]

variable (control : ∀ c, printable c = true → ' ' ≤ c) (value : String)
include control

theorem readString_quoted {style : Style} (decoded : style.verbatim = false) {letters : List Char}
    (stops : StartsIn ('.' :: delimiters) after) (reached : start.Reaches letters cursor)
    (shape : cursor.rest = (quoteBy printable value).toList ++ after) :
    (readString style start cursor).1.placeless =
        { kind := style.kind, lexeme := String.ofList letters ++ quoteBy printable value
          literal := some value } ∧
      (readString style start cursor).2.rest = after := by
  have opened : cursor.rest = '"' :: (value.toList.flatMap (escapedChar printable '"') ++ '"' :: after) := by
    rw [shape, quoteBy, String.toList_ofList]
    simp
  have length : (quoteBy printable value).toList.length =
      (value.toList.flatMap (escapedChar printable '"')).length + 1 + 1 := by
    simp [quoteBy]
  have taken := Cursor.Reaches.drop cursor (quoteBy printable value).toList.length
  rw [shape, take_left, length] at taken
  have body : (cursor.drop 1).rest = value.toList.flatMap (escapedChar printable '"') ++ '"' :: after := by
    rw [drop_rest, opened]
    rfl
  rw [readString, current_of_rest opened]
  simp only [peek_quoted stops opened, Bool.false_eq_true, if_false, body, scanBody_quoted decoded control]
  refine ⟨?_, Reaches.rest_eq taken shape⟩
  have lexeme : start.textTo ((cursor.drop 1).drop
      ((value.toList.flatMap (escapedChar printable '"')).length + 1)) =
        String.ofList letters ++ quoteBy printable value := by
    rw [← String.ofList_toList (s := quoteBy printable value), ← String.ofList_append]
    exact (reached.trans taken).textTo
  rw [lexeme, String.ofList_toList]
  rfl

theorem spells_quoted (stops : StartsIn ('.' :: delimiters) after) :
    Spells (quoteBy printable value).toList after
      { kind := .string, lexeme := quoteBy printable value, literal := some value } where
  visible := ⟨_, _, String.toList_ofList, by decide⟩
  read start shape := by
    obtain ⟨rest, first⟩ : ∃ rest, start.rest = '"' :: rest :=
      ⟨_, by rw [shape, quoteBy, String.toList_ofList]; rfl⟩
    have read : readToken start = readString {} start start := by
      have letter : isLetter '"' = false := by decide
      have digit : isDigit '"' = false := by decide
      simp [readToken, Cursor.current_of_rest first, letter, digit]
    have taken := readString_quoted control value (rfl : Style.verbatim {} = false) stops (.refl start) shape
    rwa [← read, String.ofList_nil, String.empty_append] at taken

/-- The letter of bytes belongs to the quoted text behind it. -/
theorem spells_bytes (stops : StartsIn ('.' :: delimiters) after) :
    Spells ("b" ++ quoteBy printable value).toList after
      { kind := .bytes, lexeme := "b" ++ quoteBy printable value, literal := some value } where
  visible := ⟨'b', _, String.toList_append, by decide⟩
  read start shape := by
    replace shape : start.rest = ['b'] ++ ((quoteBy printable value).toList ++ after) := by
      rw [shape, String.toList_append]
      rfl
    have first := Cursor.Reaches.next shape
    have behind := Reaches.rest_eq first shape
    obtain ⟨rest, opened⟩ : ∃ rest, start.next.rest = '"' :: rest :=
      ⟨_, by rw [behind, quoteBy, String.toList_ofList]; rfl⟩
    have still : start.next.skipWhile isIdentifierPart = start.next := by
      have stopped : isIdentifierPart '"' = false := by decide
      simp [Cursor.skipWhile, opened, stopped, Cursor.drop]
    have read : readToken start = readString { bytes := true } start start.next := by
      have letter : isLetter 'b' = true := by decide
      have word : start.textTo start.next = "b" := first.textTo
      simp only [readToken, current_of_rest shape, letter, if_true, readWord, still,
        current_of_rest opened, word]
      rfl
    rw [read]
    exact readString_quoted control value rfl stops first behind

end Quoted

theorem isPrintable_control (c : Char) (visible : isPrintable c = true) : ' ' ≤ c := by
  show 0x20 ≤ c.toNat
  unfold isPrintable at visible
  grind

theorem spells_string (value : String) (stops : StartsIn ('.' :: delimiters) after) :
    Spells (quote value).toList after (.string value) :=
  spells_quoted isPrintable_control value stops

/-- The characters that make a longer operator out of a symbol in front of them. -/
def extenders (symbol : Symbol) : List Char :=
  operators.filterMap fun operator =>
    if symbol.text.toList.isPrefixOf operator.1.toList then
      operator.1.toList[symbol.text.toList.length]?
    else none

def Apart (symbol : Symbol) (after : List Char) : Prop :=
  ∀ c ∈ after.head?, c ∉ extenders symbol ∧ (symbol = .dot → isDigit c = false)

theorem find_operator (symbol : Symbol) :
    (operators.find? fun operator => operator.1.toList.isPrefixOf symbol.text.toList) =
      some (symbol.text, .symbol symbol) := by
  cases symbol <;> decide

theorem isPrefixOf_of_apart {symbol : Symbol} {operator : String × TokenKind}
    (apart : Apart symbol after) (listed : operator ∈ operators) :
    operator.1.toList.isPrefixOf (symbol.text.toList ++ after) =
      operator.1.toList.isPrefixOf symbol.text.toList := by
  rw [Bool.eq_iff_iff, List.isPrefixOf_iff_prefix, List.isPrefixOf_iff_prefix]
  refine ⟨fun found => ?_, fun found => found.trans (List.prefix_append _ _)⟩
  rcases List.prefix_or_prefix_of_prefix found (List.prefix_append _ _) with shorter | longer
  · exact shorter
  · obtain ⟨extra, whole⟩ := longer
    cases extra with
    | nil =>
      rw [List.append_nil] at whole
      exact whole ▸ List.prefix_refl _
    | cons c =>
      rw [← whole, List.prefix_append_right_inj] at found
      obtain ⟨later, rfl⟩ := found
      refine absurd ?_ (apart c rfl).1
      refine List.mem_filterMap.mpr ⟨operator, listed, ?_⟩
      rw [if_pos (List.isPrefixOf_iff_prefix.mpr ⟨_, whole⟩), ← whole]
      simp

theorem text_head (symbol : Symbol) : ∃ c rest, symbol.text.toList = c :: rest ∧
    isBlank c = false ∧ c ∉ ['\n', '#', '\\', endChar] ∧ isLetter c = false ∧ isDigit c = false ∧
    c ∉ ['"', '\''] ∧ (c = '.' → rest = [] ∧ symbol = .dot ∨ rest.head? = some '.') := by
  cases symbol <;> exact ⟨_, _, rfl, by decide⟩

theorem spells_symbol (symbol : Symbol) (apart : Apart symbol after) :
    Spells symbol.text.toList after symbol.token where
  visible := by
    obtain ⟨c, rest, text, visible, shown, _⟩ := text_head symbol
    exact ⟨c, rest, text, visible, shown⟩
  read start shape := by
    obtain ⟨c, rest, text, _, _, letter, digit, unquoted, point⟩ := text_head symbol
    have first : start.rest = c :: (rest ++ after) := by rw [shape, text]; rfl
    have number : (c == '.' && isDigit (start.peek 1)) = false := by
      rw [Bool.and_eq_false_imp, beq_iff_eq]
      intro dot
      have second : start.peek 1 = (rest ++ after).headD endChar := by
        rw [peek, first, headD_eq_head?_getD, head?_eq_getElem?]
        rfl
      rw [second]
      rcases point dot with ⟨rfl, isDot⟩ | dots
      · cases after with
        | nil => decide
        | cons d => exact (apart d rfl).2 isDot
      · rw [headD_eq_head?_getD, head?_append, dots, Option.some_or]
        decide
    have read : readToken start = readOperator start := by
      simp only [mem_cons, not_mem_nil, or_false, not_or] at unquoted
      simp [readToken, current_of_rest first, letter, digit, unquoted, number]
    have found : (operators.find? fun operator => operator.1.toList.isPrefixOf start.rest) =
        some (symbol.text, .symbol symbol) := by
      rw [shape, ← find_operator symbol, ← head?_filter, ← head?_filter,
        filter_congr fun operator listed => isPrefixOf_of_apart apart listed]
    rw [read, readOperator, found]
    refine ⟨rfl, ?_⟩
    rw [drop_rest, shape, ← String.length_toList, drop_left]

/-- A piece of a line that is put together from tokens and blanks. -/
inductive Lexes : List Char → List Token → Prop where
  | nil : Lexes [] []
  | blank {after : List Char} {tokens : List Token} (rest : Lexes after tokens) :
      Lexes (' ' :: after) tokens
  | token {text after : List Char} {token : Token} {tokens : List Token}
      (spells : Spells text after token) (rest : Lexes after tokens) :
      Lexes (text ++ after) (token :: tokens)

/-- The lexer stands inside the only line of its text. -/
structure InLine (lexer : Lexer) (text : List Char) : Prop where
  rest : lexer.cursor.rest = text
  indents : lexer.indents = []
  pending : lexer.pending = []
  atLineStart : lexer.atLineStart = false
  finished : lexer.finished = false

theorem skipTrivia_blank (inBrackets : Bool) (shape : cursor.rest = ' ' :: after) :
    skipTrivia inBrackets cursor = skipTrivia inBrackets cursor.next := by
  rw [skipTrivia.eq_def]
  split
  · rename_i empty
    simp [shape] at empty
  · rename_i c rest first
    obtain ⟨rfl, rfl⟩ := cons.inj (shape.symm.trans first)
    rw [if_pos (by simp [isBlank])]

theorem skipTrivia_nil (inBrackets : Bool) (shape : cursor.rest = []) :
    skipTrivia inBrackets cursor = cursor := by
  rw [skipTrivia.eq_def]
  split
  · rfl
  · rename_i first
    simp [shape] at first

theorem joinLength_of_ne (other : c ≠ '\\') : joinLength (c :: rest) = 0 := by
  unfold joinLength
  split
  · rename_i first
    exact absurd (cons.inj first).1 other
  · rename_i first
    exact absurd (cons.inj first).1 other
  · rfl

variable {lexer : Lexer}

theorem Spells.skipTrivia (spells : Spells text after token) (inBrackets : Bool)
    (shape : cursor.rest = text ++ after) : skipTrivia inBrackets cursor = cursor := by
  obtain ⟨c, rest, rfl, blank, shown⟩ := spells.visible
  simp only [mem_cons, not_mem_nil, or_false, not_or] at shown
  have unjoined : joinLength cursor.rest = 0 := by
    rw [shape]
    exact joinLength_of_ne shown.2.2.1
  rw [skipTrivia.eq_def]
  split
  · rfl
  · rename_i d later first
    obtain ⟨rfl, rfl⟩ := cons.inj (shape.symm.trans first)
    simp [blank, shown, unjoined]

theorem InLine.next (inLine : lexer.InLine text) :
    lexer.next = (lexer.readOn.1, { lexer.readOn.2 with last := some lexer.readOn.1.kind }) := by
  simp [Lexer.next, scan, inLine.pending, inLine.finished, inLine.atLineStart]

theorem InLine.next_blank (inLine : lexer.InLine (' ' :: after)) :
    ∃ later : Lexer, later.InLine after ∧ later.last = lexer.last ∧ later.next = lexer.next := by
  have first := Cursor.Reaches.next inLine.rest
  have onward : InLine { lexer with cursor := lexer.cursor.next } after :=
    ⟨Reaches.rest_eq first inLine.rest, inLine.indents, inLine.pending, inLine.atLineStart, inLine.finished⟩
  refine ⟨_, onward, rfl, ?_⟩
  rw [onward.next, inLine.next]
  simp only [readOn, skipTrivia_blank _ inLine.rest]

theorem InLine.next_token (inLine : lexer.InLine (text ++ after)) (spells : Spells text after token) :
    lexer.next.1.placeless = token ∧ lexer.next.1.kind.isOrdinary = true ∧
      lexer.next.2.InLine after ∧ lexer.next.2.last = some lexer.next.1.kind := by
  obtain ⟨c, rest, first, blank, shown⟩ := spells.visible
  simp only [mem_cons, not_mem_nil, or_false, not_or] at shown
  have shape : lexer.cursor.rest = c :: (rest ++ after) := by rw [inLine.rest, first]; rfl
  have read : lexer.readOn = ((readToken lexer.cursor).1, { lexer with
      cursor := (readToken lexer.cursor).2
      depth := depthAfter lexer.depth (readToken lexer.cursor).1.kind }) := by
    simp [readOn, spells.skipTrivia _ inLine.rest, atEnd, current_of_rest shape, shown]
  obtain ⟨same, left⟩ := spells.read lexer.cursor inLine.rest
  rw [inLine.next, read]
  exact ⟨same, (readToken_takes shape).ordinary,
    ⟨left, inLine.indents, inLine.pending, inLine.atLineStart, inLine.finished⟩, rfl⟩

def lineEnd : List Token :=
  [endToken .newline {}, endToken .eof {}]

theorem InLine.yields_end (inLine : lexer.InLine [])
    (unended : needsNewline lexer.last) (yields : lexer.Yields tokens) :
    tokens.map Token.placeless = lineEnd := by
  have ended : lexer.readOn = (endToken .newline lexer.cursor.position, { lexer with
      pending := [endToken .eof lexer.cursor.position], indents := [], finished := true }) := by
    simp [readOn, skipTrivia_nil _ inLine.rest, atEnd, Cursor.current, inLine.rest,
      closingTokens, unended, inLine.indents, givePending]
  have first := inLine.next
  rw [ended] at first
  cases yields with
  | last ended =>
    rw [first] at ended
    cases ended
  | more going rest =>
    rw [first] at rest ⊢
    cases rest with
    | last => rfl
    | more going => exact absurd rfl going

theorem Lexes.yields {given : List Token} (lexes : Lexes text tokens)
    (inLine : lexer.InLine text) (unended : tokens ≠ [] ∨ needsNewline lexer.last = true)
    (yields : lexer.Yields given) : given.map Token.placeless = tokens ++ lineEnd := by
  induction lexes generalizing lexer given with
  | nil => exact inLine.yields_end (by simpa using unended) yields
  | blank rest ih =>
    obtain ⟨later, onward, last, same⟩ := inLine.next_blank
    exact ih onward (by rw [last]; exact unended) (yields.congr same)
  | token spells rest ih =>
    obtain ⟨same, ordinary, onward, last⟩ := inLine.next_token spells
    cases yields with
    | last ended =>
      rw [ended] at ordinary
      cases ordinary
    | more going later =>
      have unended : needsNewline lexer.next.2.last = true := by
        rw [last]
        revert ordinary
        cases lexer.next.1.kind <;> simp [TokenKind.isOrdinary, TokenKind.isLayout, needsNewline]
      rw [map_cons, same, ih onward (.inr unended) later, cons_append]

theorem Spells.seekLine (spells : Spells text after token)
    (shape : cursor.rest = text ++ after) : seekLine cursor = (some 0, cursor) := by
  obtain ⟨c, rest, rfl, blank, shown⟩ := spells.visible
  simp only [mem_cons, not_mem_nil, or_false, not_or] at shown
  simp only [isBlank, Bool.or_eq_false_iff, beq_eq_false_iff_ne] at blank
  have unindented : cursor.rest.takeWhile isIndentBlank = [] := by
    simp [shape, isIndentBlank, blank]
  rw [seekLine.eq_def]
  simp only [unindented, length_nil, Cursor.drop, foldl_nil]
  split
  · rename_i empty
    rw [unindented] at empty
    cases shape.symm.trans empty
  · rename_i d later first
    rw [unindented] at first
    obtain ⟨rfl, rfl⟩ := cons.inj (shape.symm.trans first)
    simp [shown, blank]

theorem Lexes.starts (lexes : Lexes text tokens) (shape : text = c :: rest) (visible : c ≠ ' ') :
    ∃ piece after token later, text = piece ++ after ∧ tokens = token :: later ∧
      Spells piece after token := by
  cases lexes with
  | nil => cases shape
  | blank => exact absurd (cons.inj shape).1.symm visible
  | token spells => exact ⟨_, _, _, _, rfl, rfl, spells⟩

theorem Lexes.tokenize {source : String} (lexes : Lexes source.toList tokens)
    (visible : ∃ c rest, source.toList = c :: rest ∧ c ≠ ' ') :
    (tokenize source).map Token.placeless = tokens ++ lineEnd := by
  obtain ⟨c, rest, shape, visible⟩ := visible
  obtain ⟨piece, after, token, later, split, first, spells⟩ := lexes.starts shape visible
  have inLine : InLine { ofText source with atLineStart := false } source.toList := ⟨rfl, rfl, rfl, rfl, rfl⟩
  have found : seekLine (ofText source).cursor = (some 0, (ofText source).cursor) := spells.seekLine split
  have fresh : (ofText source).scan = readOn { ofText source with atLineStart := false } := by
    rw [scan, found]
    rfl
  have same : next { ofText source with atLineStart := false } = (ofText source).next := by
    rw [inLine.next, next, fresh]
  have some : tokens ≠ [] := by simp [first]
  exact lexes.yields inLine (.inl some) ((tokenize_yields source).congr same)

end Lexer

end Stubwise
