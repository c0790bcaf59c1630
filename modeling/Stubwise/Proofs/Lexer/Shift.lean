import Stubwise.Proofs.Lexer.Lockstep
import Stubwise.Proofs.Parser.Moved

/-!
The lexer does not depend on where its text starts: for the same characters some lines further down
it gives the same tokens, on lines further down.
-/

namespace Stubwise

open Cursor

open Movable (move)

/-- Lines come before the tokens, and nodes are counted from `skip` on. -/
def Relocation.lower (lines skip : Nat) : Relocation where
  place := fun position => { position with line := position.line + lines }
  skip := skip

namespace Cursor

/-- The same place, with more lines and characters in front of it. -/
def lowered (lines more : Nat) (cursor : Cursor) : Cursor :=
  { cursor with
    offset := cursor.offset + more
    position := { cursor.position with line := cursor.position.line + lines } }

variable (lines more : Nat) (cursor : Cursor)

@[simp] theorem rest_lowered : (cursor.lowered lines more).rest = cursor.rest :=
  rfl

@[simp] theorem current_lowered : (cursor.lowered lines more).current = cursor.current :=
  rfl

@[simp] theorem peek_lowered (distance : Nat) :
    (cursor.lowered lines more).peek distance = cursor.peek distance :=
  rfl

@[simp] theorem next_lowered :
    (cursor.lowered lines more).next = cursor.next.lowered lines more := by
  cases shape : cursor.rest with
  | nil => simp [next, lowered, shape]
  | cons c rest =>
    by_cases lineEnd : c = '\n' <;>
      simp [next, lowered, after, shape, lineEnd, Nat.add_right_comm]

@[simp] theorem drop_lowered (count : Nat) :
    (cursor.lowered lines more).drop count = (cursor.drop count).lowered lines more := by
  induction count generalizing cursor with
  | zero => rfl
  | succ count ih => rw [drop, drop, next_lowered, ih]

@[simp] theorem skipWhile_lowered (accept : Char → Bool) :
    (cursor.lowered lines more).skipWhile accept = (cursor.skipWhile accept).lowered lines more := by
  simp [skipWhile]

@[simp] theorem skipComment_lowered :
    (cursor.lowered lines more).skipComment = cursor.skipComment.lowered lines more :=
  skipWhile_lowered lines more cursor _

@[simp] theorem textTo_lowered (stop : Cursor) :
    (cursor.lowered lines more).textTo (stop.lowered lines more) = cursor.textTo stop := by
  simp [textTo, lowered, Nat.add_sub_add_right]

end Cursor

namespace Lexer

theorem seekLine_eq (cursor : Cursor) : seekLine cursor = match (cursor.skipWhile isIndentBlank).rest with
    | [] => (none, cursor.skipWhile isIndentBlank)
    | c :: _ =>
      if c == '#' then seekLine (cursor.skipWhile isIndentBlank).skipComment
      else if c == '\r' || c == '\n' then seekLine (cursor.skipWhile isIndentBlank).next
      else if c == endChar then (none, cursor.skipWhile isIndentBlank)
      else (some ((cursor.rest.takeWhile isIndentBlank).foldl advanceWidth 0),
        cursor.skipWhile isIndentBlank) := by
  rw [seekLine]
  dsimp only [skipWhile]
  split <;> rename_i shape <;> rw [shape]

theorem skipTrivia_eq (inBrackets : Bool) (cursor : Cursor) : skipTrivia inBrackets cursor =
    match cursor.rest with
    | [] => cursor
    | c :: _ =>
      if isBlank c || (inBrackets && c == '\n') then skipTrivia inBrackets cursor.next
      else if c == '#' then skipTrivia inBrackets cursor.skipComment
      else if joinLength cursor.rest != 0 then
        skipTrivia inBrackets (cursor.next.drop (joinLength cursor.rest - 1))
      else cursor := by
  rw [skipTrivia]
  split <;> rename_i shape <;> simp only [shape]

section Scanners

variable (lines more : Nat)

theorem seekLine_lowered (cursor : Cursor) : seekLine (cursor.lowered lines more) =
    ((seekLine cursor).1, (seekLine cursor).2.lowered lines more) := by
  have start (cursor : Cursor) : cursor.drop (cursor.rest.takeWhile isIndentBlank).length =
    cursor.skipWhile isIndentBlank := rfl
  fun_induction seekLine cursor with
  | case1 _ _ _ shape =>
    rw [seekLine_eq, skipWhile_lowered, rest_lowered, ← start, shape]
  | case2 _ _ _ _ _ shape comment ih =>
    rw [seekLine_eq, skipWhile_lowered, rest_lowered, ← start, shape]
    simp only [comment, if_true, skipComment_lowered]
    exact ih
  | case3 cursor blanks first c rest shape comment lineEnd ih =>
    rw [seekLine_eq, skipWhile_lowered, rest_lowered, ← start, shape]
    simp only [comment, lineEnd, if_true, next_lowered]
    exact ih
  | case4 _ _ _ _ _ shape comment lineEnd atEnd =>
    rw [seekLine_eq, skipWhile_lowered, rest_lowered, ← start, shape]
    simp only [comment, lineEnd, atEnd, if_true]
    rfl
  | case5 _ _ _ _ _ _ shape comment lineEnd atEnd =>
    rw [seekLine_eq, skipWhile_lowered, rest_lowered, ← start, shape]
    simp only [comment, lineEnd, atEnd]
    rfl

theorem skipTrivia_lowered (inBrackets : Bool) (cursor : Cursor) :
    skipTrivia inBrackets (cursor.lowered lines more) =
      (skipTrivia inBrackets cursor).lowered lines more := by
  fun_induction skipTrivia inBrackets cursor with
  | case1 _ shape =>
    rw [skipTrivia_eq, rest_lowered, shape]
  | case2 cursor c rest shape blank ih =>
    rw [skipTrivia_eq, rest_lowered, shape]
    simp only [blank, if_true, next_lowered]
    exact ih
  | case3 _ _ _ shape blank comment ih =>
    rw [skipTrivia_eq, rest_lowered, shape]
    simp only [blank, comment, if_true, skipComment_lowered]
    exact ih
  | case4 cursor c rest shape blank comment join joined ih =>
    rw [skipTrivia_eq, rest_lowered, shape]
    simp only [join, shape] at joined ih ⊢
    simp only [blank, comment, joined, if_true, next_lowered, drop_lowered]
    exact ih
  | case5 _ _ _ shape blank comment join joined =>
    rw [skipTrivia_eq, rest_lowered, shape]
    simp only [join, shape] at joined
    simp only [blank, comment, joined]
    rfl

theorem readString_lowered (style : Literal.Style) (start cursor : Cursor) :
    readString style (start.lowered lines more) (cursor.lowered lines more) =
      ((readString style start cursor).1.moved (.lower lines 0),
        (readString style start cursor).2.lowered lines more) := by
  cases triple : cursor.peek 1 == cursor.current && cursor.peek 2 == cursor.current
  all_goals
    simp only [readString, current_lowered, peek_lowered, triple, Bool.false_eq_true,
      if_true, if_false, drop_lowered, rest_lowered]
    split <;> simp only [textTo_lowered] <;> rfl

theorem readWord_lowered (start : Cursor) : readWord (start.lowered lines more) =
    ((readWord start).1.moved (.lower lines 0), (readWord start).2.lowered lines more) := by
  unfold readWord
  simp only [next_lowered, skipWhile_lowered, textTo_lowered, current_lowered]
  split
  · cases Literal.Style.ofLetters? (start.textTo (start.next.skipWhile Text.isIdentifierPart)) with
    | none => rfl
    | some style => exact readString_lowered lines more style _ _
  · rfl

theorem readNumber_lowered (start : Cursor) : readNumber (start.lowered lines more) =
    ((readNumber start).1.moved (.lower lines 0), (readNumber start).2.lowered lines more) := by
  unfold readNumber
  simp only [rest_lowered, drop_lowered, textTo_lowered]
  cases Literal.scanNumber start.rest <;> rfl

theorem readOperator_lowered (start : Cursor) : readOperator (start.lowered lines more) =
    ((readOperator start).1.moved (.lower lines 0), (readOperator start).2.lowered lines more) := by
  unfold readOperator
  simp only [rest_lowered, drop_lowered, current_lowered, next_lowered]
  cases operators.find? fun operator => operator.1.toList.isPrefixOf start.rest <;> rfl

theorem readToken_lowered (start : Cursor) : readToken (start.lowered lines more) =
    ((readToken start).1.moved (.lower lines 0), (readToken start).2.lowered lines more) := by
  by_cases letter : Text.isLetter start.current = true
  · simp only [readToken, current_lowered, letter, if_true]
    exact readWord_lowered lines more start
  by_cases digit :
      (Text.isDigit start.current || (start.current == '.' && Text.isDigit (start.peek 1))) = true
  · simp only [readToken, current_lowered, peek_lowered, letter, digit, if_true, Bool.false_eq_true, if_false]
    exact readNumber_lowered lines more start
  by_cases quote : (start.current == '"' || start.current == '\'') = true
  · simp only [readToken, current_lowered, peek_lowered, letter, digit, quote, if_true,
      Bool.false_eq_true, if_false]
    exact readString_lowered lines more {} start start
  · simp only [readToken, current_lowered, peek_lowered, letter, digit, quote, Bool.false_eq_true, if_false]
    exact readOperator_lowered lines more start

end Scanners

/-- The second lexer is in front of the same characters, further down. -/
abbrev Beside (lines more : Nat) : Lexer → Lexer → Prop :=
  Alongside (fun start other => other = start.lowered lines more)
    (fun token other => token.moved (.lower lines 0) = other)

theorem lockstep_lowered (lines more : Nat) :
    Lockstep (fun start other => other = start.lowered lines more)
      (fun token other => token.moved (.lower lines 0) = other) fun _ => True where
  kind := by
    rintro token _ rfl
    rfl
  here := by
    rintro start _ rfl token
    rfl
  line := by
    rintro start _ rfl token col
    rfl
  seek := by
    rintro start _ rfl
    rw [seekLine_lowered]
    exact ⟨rfl, rfl⟩
  trivia := by
    rintro start _ rfl inBrackets
    rw [skipTrivia_lowered]
    exact ⟨rfl, rfl⟩
  next := by
    rintro start _ rfl _ _
    exact start.next_lowered lines more
  read := by
    rintro start _ rfl _ _ _ _
    rw [readToken_lowered]
    exact ⟨rfl, rfl⟩

theorem Yields.beside {lines more : Nat} (skip : Nat) {lexer other : Lexer} {tokens : List Token}
    (yields : lexer.Yields tokens) (beside : lexer.Beside lines more other) :
    other.Yields (tokens.map (move (.lower lines skip))) := by
  obtain ⟨others, given, same⟩ := (lockstep_lowered lines more).yields yields beside fun _ _ => trivial
  have mapped : List.Forall₂ Eq (tokens.map (move (.lower lines skip))) others :=
    List.forall₂_map_left_iff.mpr same
  rw [List.forall₂_eq_eq_eq] at mapped
  exact mapped ▸ given

end Lexer

end Stubwise
