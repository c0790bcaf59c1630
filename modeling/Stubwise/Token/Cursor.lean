import Stubwise.Text.Identifier
import Stubwise.Token

/-!
A cursor is a place in a text: what is left to read, how many characters were read, and the position
of the next one.
-/

namespace Stubwise

def endChar : Char :=
  Char.ofNat 0

structure Cursor where
  rest : List Char
  offset : Nat := 0
  position : Position := { line := 1, col := 1 }
  deriving Repr

namespace Cursor

def current (cursor : Cursor) : Char :=
  cursor.rest.headD endChar

def peek (cursor : Cursor) (distance : Nat) : Char :=
  cursor.rest[distance]?.getD endChar

def atEnd (cursor : Cursor) : Bool :=
  cursor.current == endChar

def after (position : Position) (c : Char) : Position :=
  if c == '\n' then { line := position.line + 1, col := 1 }
  else { position with col := position.col + 1 }

def next (cursor : Cursor) : Cursor :=
  match cursor.rest with
  | [] => cursor
  | c :: rest =>
    { rest, offset := cursor.offset + 1, position := after cursor.position c }

def drop : Nat → Cursor → Cursor
  | 0, cursor => cursor
  | count + 1, cursor => drop count cursor.next

def skipWhile (accept : Char → Bool) (cursor : Cursor) : Cursor :=
  cursor.drop (cursor.rest.takeWhile accept).length

def textTo (start stop : Cursor) : String :=
  String.ofList (start.rest.take (stop.offset - start.offset))

def skipComment (cursor : Cursor) : Cursor :=
  cursor.skipWhile fun c => c != '\n' && c != endChar

theorem next_length {cursor : Cursor} {c : Char} {rest : List Char}
    (shape : cursor.rest = c :: rest) : cursor.next.rest.length < cursor.rest.length := by
  simp [next, shape]

theorem drop_length (count : Nat) (cursor : Cursor) :
    (cursor.drop count).rest.length ≤ cursor.rest.length := by
  induction count generalizing cursor with
  | zero => exact Nat.le_refl _
  | succ count ih =>
    refine Nat.le_trans (ih cursor.next) ?_
    cases shape : cursor.rest with
    | nil => simp [next, shape]
    | cons c rest => simp [next, shape]

theorem skipComment_length {cursor : Cursor} {rest : List Char} (shape : cursor.rest = '#' :: rest) :
    cursor.skipComment.rest.length < cursor.rest.length := by
  unfold skipComment skipWhile
  have first : (cursor.rest.takeWhile fun c => c != '\n' && c != endChar).length =
      (rest.takeWhile fun c => c != '\n' && c != endChar).length + 1 := by
    rw [shape]
    rfl
  rw [first]
  exact Nat.lt_of_le_of_lt (drop_length _ cursor.next) (next_length shape)

end Cursor

end Stubwise
