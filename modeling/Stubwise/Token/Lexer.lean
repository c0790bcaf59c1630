import Stubwise.Token.Literal

/-!
The lexer. It gives one token at a time and makes the layout tokens from the shape of the text: a
`newline` ends a logical line, `indent` and `dedent` stand for changes of its indentation.
-/

namespace Stubwise

open Text

structure Lexer where
  source : List Char
  cursor : Cursor
  indents : List Nat := []
  pending : List Token := []
  depth : Nat := 0
  atLineStart : Bool := true
  last : Option TokenKind := none
  finished : Bool := false

namespace Lexer

def tabSize : Nat :=
  8

def advanceWidth (width : Nat) (c : Char) : Nat :=
  if c == '\t' then (width / tabSize + 1) * tabSize else if c == ' ' then width + 1 else width

def isIndentBlank (c : Char) : Bool :=
  c == ' ' || c == '\t' || c == Char.ofNat 12

/-- Moves over blank and comment lines to the first line with a token on it. Gives the width of its
indentation, or nothing where the text ends first. -/
def seekLine (cursor : Cursor) : Option Nat × Cursor :=
  let blanks := cursor.rest.takeWhile isIndentBlank
  let width := blanks.foldl advanceWidth 0
  let start := cursor.drop blanks.length
  match _shape : start.rest with
  | [] => (none, start)
  | c :: _rest =>
    if c == '#' then seekLine start.skipComment
    else if c == '\r' || c == '\n' then seekLine start.next
    else if c == endChar then (none, start)
    else (some width, start)
termination_by cursor.rest.length
decreasing_by
  · rename_i comment
    have hash : start.rest = '#' :: _rest := by rw [_shape, eq_of_beq comment]
    exact Nat.lt_of_lt_of_le (Cursor.skipComment_length hash) (Cursor.drop_length _ _)
  · exact Nat.lt_of_lt_of_le (Cursor.next_length _shape) (Cursor.drop_length _ _)

def isBlank (c : Char) : Bool :=
  c == ' ' || c == '\t' || c == '\r' || c == Char.ofNat 12

/-- How many characters a line join takes that starts here: a backslash, an optional carriage
return and a line end. -/
def joinLength : List Char → Nat
  | '\\' :: '\n' :: _ => 2
  | '\\' :: '\r' :: '\n' :: _ => 3
  | _ => 0

/-- Moves over blanks, comments and line joins, and over line ends where `inBrackets` is set. -/
def skipTrivia (inBrackets : Bool) (cursor : Cursor) : Cursor :=
  match shape : cursor.rest with
  | [] => cursor
  | c :: rest =>
    if isBlank c || (inBrackets && c == '\n') then skipTrivia inBrackets cursor.next
    else if c == '#' then skipTrivia inBrackets cursor.skipComment
    else
      let join := joinLength cursor.rest
      if join != 0 then skipTrivia inBrackets (cursor.next.drop (join - 1)) else cursor
termination_by cursor.rest.length
decreasing_by
  · exact Cursor.next_length shape
  · rename_i comment
    have hash : cursor.rest = '#' :: rest := by rw [shape, eq_of_beq comment]
    exact Cursor.skipComment_length hash
  · exact Nat.lt_of_le_of_lt (Cursor.drop_length _ _) (Cursor.next_length shape)

def operators : List (String × TokenKind) :=
  [("**=", .augAssign), ("//=", .augAssign), (">>=", .augAssign), ("<<=", .augAssign),
   ("...", .symbol .ellipsis),
   ("+=", .augAssign), ("-=", .augAssign), ("*=", .augAssign), ("/=", .augAssign),
   ("%=", .augAssign), ("@=", .augAssign), ("&=", .augAssign), ("|=", .augAssign),
   ("^=", .augAssign),
   ("**", .symbol .power), ("//", .symbol .doubleSlash), ("<<", .symbol .shiftLeft),
   (">>", .symbol .shiftRight), ("<=", .symbol .lessEqual), (">=", .symbol .greaterEqual),
   ("==", .symbol .equal), ("!=", .symbol .notEqual), ("->", .symbol .arrow),
   (":=", .symbol .walrus),
   ("=", .symbol .assign), ("+", .symbol .plus), ("-", .symbol .minus), ("*", .symbol .star),
   ("/", .symbol .slash), ("%", .symbol .percent), ("@", .symbol .atSign),
   ("&", .symbol .ampersand), ("|", .symbol .pipe), ("^", .symbol .caret), ("~", .symbol .tilde),
   ("<", .symbol .less), (">", .symbol .greater), (",", .symbol .comma), (":", .symbol .colon),
   (";", .symbol .semicolon), (".", .symbol .dot), ("(", .symbol .openParen),
   (")", .symbol .closeParen), ("[", .symbol .openBracket), ("]", .symbol .closeBracket),
   ("\x7b", .symbol .openBrace), ("\x7d", .symbol .closeBrace)]

def illegal (position : Position) (lexeme message : String) : Token :=
  { kind := .illegal, lexeme, literal := some message, position }

def depthAfter (depth : Nat) : TokenKind → Nat
  | .symbol s => if s.opens then depth + 1 else if s.closes then depth - 1 else depth
  | _ => depth

/-- Reads the string literal whose opening quote is at `cursor`. The lexeme starts at `start`,
where the letters of its style are. -/
def readString (style : Literal.Style) (start cursor : Cursor) : Token × Cursor :=
  let quote := cursor.current
  let triple := cursor.peek 1 == quote && cursor.peek 2 == quote
  let body := cursor.drop (if triple then 3 else 1)
  match Literal.scanBody style quote triple body.rest with
  | .unterminated length =>
    let stop := body.drop length
    (illegal start.position (start.textTo stop) "unterminated string literal", stop)
  | .closed value length =>
    let stop := body.drop length
    ({ kind := style.kind, lexeme := start.textTo stop, literal := some (String.ofList value),
       position := start.position }, stop)

/-- Reads an identifier or a keyword, or the string literal that letters of a style introduce. -/
def readWord (start : Cursor) : Token × Cursor :=
  let stop := start.next.skipWhile isIdentifierPart
  let word := start.textTo stop
  let plain : Token :=
    { kind := match Keyword.ofText? word with
        | some keyword => .keyword keyword
        | none => .ident
      lexeme := word, literal := some word, position := start.position }
  if stop.current == '"' || stop.current == '\'' then
    match Literal.Style.ofLetters? word with
    | some style => readString style start stop
    | none => (plain, stop)
  else (plain, stop)

def withoutUnderscores (text : String) : String :=
  String.ofList (text.toList.filter (· != '_'))

def readNumber (start : Cursor) : Token × Cursor :=
  match Literal.scanNumber start.rest with
  | .number kind length =>
    let stop := start.drop length
    let lexeme := start.textTo stop
    ({ kind, lexeme, literal := some (withoutUnderscores lexeme), position := start.position },
     stop)
  | .badInteger length =>
    let stop := start.drop length
    let lexeme := start.textTo stop
    (illegal start.position lexeme ("invalid integer literal " ++ quote lexeme), stop)
  | .badNumber length =>
    let stop := start.drop length
    let lexeme := start.textTo stop
    (illegal start.position lexeme ("invalid numeric literal " ++ quote lexeme), stop)

def readOperator (start : Cursor) : Token × Cursor :=
  match operators.find? fun operator => operator.1.toList.isPrefixOf start.rest with
  | some (text, kind) =>
    let literal := if kind == .augAssign then String.ofList text.toList.dropLast else text
    ({ kind, lexeme := text, literal := some literal, position := start.position },
     start.drop text.length)
  | none =>
    (illegal start.position (String.singleton start.current)
      ("invalid character " ++ quoteChar start.current), start.next)

def readToken (start : Cursor) : Token × Cursor :=
  let c := start.current
  if isLetter c then readWord start
  else if isDigit c || (c == '.' && isDigit (start.peek 1)) then readNumber start
  else if c == '"' || c == '\'' then readString {} start start
  else readOperator start

def layout (kind : TokenKind) (position : Position) : Token :=
  { kind, position }

def endToken (kind : TokenKind) (position : Position) : Token :=
  { kind, literal := some "", position }

/-- Closes the blocks wider than `width`: the widths that stay open, and a `dedent` per closed
block. -/
def closeBlocks (width : Nat) (position : Position) : List Nat → List Nat × List Token
  | [] => ([], [])
  | open_ :: outer =>
    if width < open_ then
      let (kept, tokens) := closeBlocks width position outer
      (kept, layout .dedent position :: tokens)
    else (open_ :: outer, [])

def indentTokens (width line : Nat) (indents : List Nat) : List Nat × List Token :=
  let position : Position := { line, col := 1 }
  let top := indents.headD 0
  if top < width then (width :: indents, [layout .indent position])
  else if width < top then
    let (kept, tokens) := closeBlocks width position indents
    if width == kept.headD 0 then (kept, tokens)
    else
      (kept, tokens ++
        [{ kind := .illegal
           literal := some "unindent does not match any outer indentation level"
           position := { line, col := width + 1 } }])
  else (indents, [])

def needsNewline : Option TokenKind → Bool
  | none | some .newline | some .dedent | some .indent => false
  | some _ => true

def closingTokens (lexer : Lexer) : List Token :=
  let position := lexer.cursor.position
  (if needsNewline lexer.last then [endToken .newline position] else []) ++
    lexer.indents.map (fun _ => endToken .dedent position) ++ [endToken .eof position]

def givePending (lexer : Lexer) : Token × Lexer :=
  match lexer.pending with
  | [] => (endToken .eof lexer.cursor.position, lexer)
  | token :: pending => (token, { lexer with pending })

def readOn (lexer : Lexer) : Token × Lexer :=
  let start := skipTrivia (lexer.depth != 0) lexer.cursor
  let lexer := { lexer with cursor := start }
  if start.atEnd then
    givePending { lexer with
      pending := closingTokens lexer, indents := [], finished := true }
  else if start.current == '\n' then
    ({ kind := .newline, lexeme := "\n", position := start.position },
     { lexer with cursor := start.next, atLineStart := true })
  else
    let (token, stop) := readToken start
    (token, { lexer with cursor := stop, depth := depthAfter lexer.depth token.kind })

def scan (lexer : Lexer) : Token × Lexer :=
  if !lexer.pending.isEmpty then lexer.givePending
  else if lexer.finished then (endToken .eof lexer.cursor.position, lexer)
  else if lexer.atLineStart && lexer.depth == 0 then
    match seekLine lexer.cursor with
    | (none, cursor) => readOn { lexer with cursor, atLineStart := false }
    | (some width, cursor) =>
      let lexer := { lexer with cursor, atLineStart := false }
      let (indents, tokens) := indentTokens width cursor.position.line lexer.indents
      if tokens.isEmpty then readOn lexer
      else givePending { lexer with indents, pending := tokens }
  else readOn lexer

def next (lexer : Lexer) : Token × Lexer :=
  let (token, lexer) := lexer.scan
  (token, { lexer with last := some token.kind })

def ofChars (source : List Char) : Lexer :=
  { source, cursor := { rest := source } }

def ofText (source : String) : Lexer :=
  ofChars source.toList

def tokensWithin : Nat → Lexer → List Token
  | 0, _ => []
  | fuel + 1, lexer =>
    let (token, lexer) := lexer.next
    if token.kind == .eof then [token] else token :: tokensWithin fuel lexer

/-- More tokens than a text of this length can have: every line gives at most one `indent` or
`illegal` layout token besides the tokens of its characters, and every block is closed once. -/
def tokenBound (length : Nat) : Nat :=
  4 * length + 8

def tokens (lexer : Lexer) : List Token :=
  lexer.tokensWithin (tokenBound lexer.source.length)

def inBrackets (lexer : Lexer) : Bool :=
  lexer.depth != 0

def lineWidth? (line : List Char) : Option Nat :=
  go 0 line
where
  go (width : Nat) : List Char → Option Nat
    | [] => none
    | c :: rest =>
      if c == ' ' || c == '\t' then go (advanceWidth width c) rest
      else if c == Char.ofNat 12 || c == '\r' then go width rest
      else if c == '#' then none
      else some width

def afterLine : List Char → Option (List Char)
  | [] => none
  | c :: rest => if c == '\n' then some rest else afterLine rest

theorem afterLine_length {cs after : List Char} (found : afterLine cs = some after) :
    after.length < cs.length := by
  induction cs with
  | nil => simp [afterLine] at found
  | cons c rest ih =>
    unfold afterLine at found
    split at found
    · cases found
      simp
    · exact Nat.lt_succ_of_lt (ih found)

/-- The first line after `line` that is not blank and is indented no deeper than it, given as its
number and the text from it on. `number` is the line that `text` starts with, and `limit` the width
of `line` once it was met. -/
def resumePoint? (line number : Nat) (limit : Option Nat) (text : List Char) :
    Option (Nat × List Char) :=
  let width := lineWidth? (text.takeWhile (· != '\n'))
  let limit := if number == line then width else limit
  let resumes := number > line && (match width, limit with
    | some width, some limit => decide (width ≤ limit)
    | _, _ => false)
  if resumes then some (number, text)
  else
    match found : afterLine text with
    | none => none
    | some after => resumePoint? line (number + 1) limit after
termination_by text.length
decreasing_by exact afterLine_length found

/-- Abandons the bracket that a statement starting on `line` left open: goes on at the first later
line indented no deeper than it, or at the end of the text. -/
def resumeAfter (line : Nat) (lexer : Lexer) : Lexer :=
  let cursor : Cursor :=
    match resumePoint? line 1 none lexer.source with
    | some (number, rest) =>
      { rest, offset := lexer.source.length - rest.length
        position := { line := number, col := 1 } }
    | none =>
      { rest := [], offset := lexer.source.length
        position := { line := lexer.cursor.position.line, col := 1 } }
  { lexer with
    cursor, pending := [], depth := 0, atLineStart := true, last := some .newline
    finished := false }

end Lexer

def Token.text (token : Token) : String :=
  s!"{token.kind.text}({Text.quote token.lexeme}) at {token.position.line}:{token.position.col}"

def tokenize (source : String) : List Token :=
  (Lexer.ofText source).tokens

end Stubwise
