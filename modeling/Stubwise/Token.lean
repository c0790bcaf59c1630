/-!
Tokens of the source language. A token has a kind, the text it covers, a decoded value where the
kind has one, and the position of its first character.
-/

namespace Stubwise

inductive Keyword where
  | false_ | none_ | true_ | and_ | as_ | assert_ | async_ | await_ | break_ | class_ | continue_
  | def_ | del_ | elif_ | else_ | except_ | finally_ | for_ | from_ | global_ | if_ | import_
  | in_ | is_ | lambda_ | nonlocal_ | not_ | or_ | pass_ | raise_ | return_ | try_ | while_
  | with_ | yield_
  deriving DecidableEq, Repr, Inhabited

def Keyword.text : Keyword → String
  | false_ => "False" | none_ => "None" | true_ => "True" | and_ => "and" | as_ => "as"
  | assert_ => "assert" | async_ => "async" | await_ => "await" | break_ => "break"
  | class_ => "class" | continue_ => "continue" | def_ => "def" | del_ => "del"
  | elif_ => "elif" | else_ => "else" | except_ => "except" | finally_ => "finally"
  | for_ => "for" | from_ => "from" | global_ => "global" | if_ => "if" | import_ => "import"
  | in_ => "in" | is_ => "is" | lambda_ => "lambda" | nonlocal_ => "nonlocal" | not_ => "not"
  | or_ => "or" | pass_ => "pass" | raise_ => "raise" | return_ => "return" | try_ => "try"
  | while_ => "while" | with_ => "with" | yield_ => "yield"

def Keyword.all : List Keyword :=
  [false_, none_, true_, and_, as_, assert_, async_, await_, break_, class_, continue_, def_, del_,
   elif_, else_, except_, finally_, for_, from_, global_, if_, import_, in_, is_, lambda_,
   nonlocal_, not_, or_, pass_, raise_, return_, try_, while_, with_, yield_]

def Keyword.ofText? (text : String) : Option Keyword :=
  Keyword.all.find? (·.text == text)

inductive Symbol where
  | assign | walrus | plus | minus | star | power | slash | doubleSlash | percent | atSign
  | shiftLeft | shiftRight | ampersand | pipe | caret | tilde | less | greater | lessEqual
  | greaterEqual | equal | notEqual | arrow | comma | colon | semicolon | dot | ellipsis
  | openParen | closeParen | openBracket | closeBracket | openBrace | closeBrace
  deriving DecidableEq, Repr, Inhabited

def Symbol.text : Symbol → String
  | assign => "=" | walrus => ":=" | plus => "+" | minus => "-" | star => "*" | power => "**"
  | slash => "/" | doubleSlash => "//" | percent => "%" | atSign => "@" | shiftLeft => "<<"
  | shiftRight => ">>" | ampersand => "&" | pipe => "|" | caret => "^" | tilde => "~"
  | less => "<" | greater => ">" | lessEqual => "<=" | greaterEqual => ">=" | equal => "=="
  | notEqual => "!=" | arrow => "->" | comma => "," | colon => ":" | semicolon => ";"
  | dot => "." | ellipsis => "..." | openParen => "(" | closeParen => ")" | openBracket => "["
  | closeBracket => "]" | openBrace => "\x7b" | closeBrace => "\x7d"

def Symbol.opens : Symbol → Bool
  | openParen | openBracket | openBrace => true
  | _ => false

def Symbol.closes : Symbol → Bool
  | closeParen | closeBracket | closeBrace => true
  | _ => false

inductive TokenKind where
  | illegal | eof | newline | indent | dedent
  | ident | int | float | imag | string | bytes | fstring
  | augAssign
  | symbol (symbol : Symbol)
  | keyword (keyword : Keyword)
  deriving DecidableEq, Repr, Inhabited

def TokenKind.text : TokenKind → String
  | illegal => "ILLEGAL" | eof => "EOF" | newline => "NEWLINE" | indent => "INDENT"
  | dedent => "DEDENT" | ident => "IDENT" | int => "INT" | float => "FLOAT" | imag => "IMAG"
  | string => "STRING" | bytes => "BYTES" | fstring => "FSTRING" | augAssign => "AUG_ASSIGN"
  | symbol s => s.text
  | keyword k => k.text

/-- A place in a source text. Lines and columns count from 1, columns in characters; line 0 means
that there is no place. -/
structure Position where
  line : Nat := 0
  col : Nat := 0
  deriving DecidableEq, Repr, Inhabited

def Position.isSet (position : Position) : Bool :=
  position.line != 0

def Position.text (position : Position) : String :=
  if position.isSet then s!"{position.line}:{position.col}" else "?"

structure Token where
  kind : TokenKind
  lexeme : String := ""
  literal : Option String := none
  position : Position := {}
  deriving DecidableEq, Repr, Inhabited

def Token.endOfInput : Token :=
  { kind := .eof }

def Token.value (token : Token) : String :=
  token.literal.getD ""

end Stubwise
