namespace Stubwise.Yaml

def isBlank (c : Char) : Bool :=
  c == ' ' || c == '\t'

def isBreak (c : Char) : Bool :=
  c == '\n' || c == '\r' || c == '\u0085' || c == '\u2028' || c == '\u2029'

def isAllowed (c : Char) : Bool :=
  let code := c.toNat
  code == 0x9 || code == 0xa || code == 0xd || (0x20 ≤ code && code ≤ 0x7e) || code == 0x85 ||
    (0xa0 ≤ code && code ≤ 0xd7ff) || (0xe000 ≤ code && code ≤ 0xfffd) || 0x10000 ≤ code

def hexDigit? (c : Char) : Option Nat :=
  if '0' ≤ c ∧ c ≤ '9' then some (c.toNat - '0'.toNat)
  else if 'a' ≤ c ∧ c ≤ 'f' then some (c.toNat - 'a'.toNat + 10)
  else if 'A' ≤ c ∧ c ≤ 'F' then some (c.toNat - 'A'.toNat + 10)
  else none

structure Cursor where
  rest : List Char
  line : Nat := 0
  col : Nat := 0
  index : Nat := 0
  isCut : Bool := false
  deriving Inhabited

namespace Cursor

def ahead (cursor : Cursor) (offset : Nat) : Option Char :=
  cursor.rest[offset]?

def current (cursor : Cursor) : Option Char :=
  cursor.rest.head?

def lacks (cursor : Cursor) (count : Nat) : Bool :=
  cursor.isCut && (cursor.rest.drop (count - 1)).isEmpty

def gapAt (cursor : Cursor) (offset : Nat) : Bool :=
  match cursor.ahead offset with
  | none => true
  | some c => isBlank c || isBreak c

def breakAt (cursor : Cursor) (offset : Nat) : Bool :=
  match cursor.ahead offset with
  | none => true
  | some c => isBreak c

def skip (cursor : Cursor) : Cursor :=
  { cursor with
    rest := cursor.rest.drop 1
    col := cursor.col + 1
    index := cursor.index + 1 }

def skipMany : Nat → Cursor → Cursor
  | 0, cursor => cursor
  | count + 1, cursor => skipMany count cursor.skip

def readBreak (cursor : Cursor) : String × Cursor :=
  let nextLine (rest : List Char) (length : Nat) : Cursor :=
    { cursor with rest, line := cursor.line + 1, col := 0, index := cursor.index + length }
  match cursor.rest with
  | '\r' :: '\n' :: rest => ("\n", nextLine rest 2)
  | '\u2028' :: rest => ("\u2028", nextLine rest 1)
  | '\u2029' :: rest => ("\u2029", nextLine rest 1)
  | _ :: rest => ("\n", nextLine rest 1)
  | [] => ("", cursor)

def skipWhile (accept : Char → Bool) (cursor : Cursor) : Cursor :=
  let taken := cursor.rest.takeWhile accept
  { cursor with
    rest := cursor.rest.drop taken.length
    col := cursor.col + taken.length
    index := cursor.index + taken.length }

def skipTo (index : Nat) : Nat → Cursor → Cursor
  | 0, cursor => cursor
  | turns + 1, cursor =>
    if index ≤ cursor.index then cursor
    else if cursor.current.any isBreak then skipTo index turns cursor.readBreak.2
    else skipTo index turns cursor.skip

/-- Whether a line of three equal marks begins here, as documents have around them. -/
def isDocumentMark (cursor : Cursor) (mark : Char) : Bool :=
  cursor.col == 0 && cursor.rest.take 3 == [mark, mark, mark] && cursor.gapAt 3

def isDocumentEdge (cursor : Cursor) : Bool :=
  cursor.isDocumentMark '-' || cursor.isDocumentMark '.'

end Cursor

inductive Gap where
  | spaces (text : String)
  | breaks (first more : String)

namespace Gap

def text : Gap → String
  | spaces text => text
  | breaks first more =>
    if first == "\n" then if more.isEmpty then " " else more
    else first ++ more

def isBreaks : Gap → Bool
  | spaces _ => false
  | breaks _ _ => true

/-- Reads blanks and line breaks. -/
def read (indent : Nat) : Nat → Gap → Cursor → Option (Gap × Cursor)
  | 0, gap, cursor => some (gap, cursor)
  | turns + 1, gap, cursor =>
    match cursor.current with
    | none => if cursor.isCut then none else some (gap, cursor)
    | some c =>
      if isBlank c then
        match gap with
        | spaces kept => read indent turns (spaces (kept.push c)) cursor.skip
        | breaks _ _ =>
          if c == '\t' && cursor.col < indent then none
          else read indent turns gap cursor.skip
      else if isBreak c then
        let (kept, next) := cursor.readBreak
        match gap with
        | spaces _ => read indent turns (breaks kept "") next
        | breaks first more => read indent turns (breaks first (more ++ kept)) next
      else some (gap, cursor)

end Gap

end Stubwise.Yaml
