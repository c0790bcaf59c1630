import Stubwise.Token.Lexer

namespace Stubwise

open List

namespace Cursor

/-- The position behind `before`, counted from the start of the text. -/
def positionAfter (before : List Char) : Position where
  line := 1 + before.count '\n'
  col := 1 + (before.reverse.takeWhile (· != '\n')).length

theorem positionAfter_snoc (before : List Char) (c : Char) :
    positionAfter (before ++ [c]) = after (positionAfter before) c := by
  by_cases lineEnd : c = '\n'
  · subst lineEnd
    simp [positionAfter, after, Nat.add_assoc]
  · simp [positionAfter, after, lineEnd, Nat.add_assoc, Nat.add_comm 1]

theorem positionAfter_append (before text : List Char) :
    positionAfter (before ++ text) = text.foldl after (positionAfter before) := by
  induction text generalizing before with
  | nil => simp
  | cons c rest ih =>
    have shifted : before ++ c :: rest = (before ++ [c]) ++ rest := by simp
    rw [shifted, ih, positionAfter_snoc, foldl_cons]

/-- The cursor is a place of `source`, and its position is the true one. -/
def StandsAfter (before : List Char) (cursor : Cursor) : Prop :=
  cursor.offset = before.length ∧ cursor.position = positionAfter before

/-- Reading `text` from `start` leads to `stop`. -/
structure Reaches (start : Cursor) (text : List Char) (stop : Cursor) : Prop where
  rest : start.rest = text ++ stop.rest
  offset : stop.offset = start.offset + text.length
  position : stop.position = text.foldl after start.position

namespace Reaches

variable {start middle stop : Cursor} {text more : List Char}

theorem refl (cursor : Cursor) : cursor.Reaches [] cursor := ⟨rfl, rfl, rfl⟩

theorem trans (first : start.Reaches text middle) (second : middle.Reaches more stop) :
    start.Reaches (text ++ more) stop where
  rest := by rw [first.rest, second.rest, append_assoc]
  offset := by rw [second.offset, first.offset, length_append, Nat.add_assoc]
  position := by rw [second.position, first.position, foldl_append]

theorem next {c : Char} {rest : List Char} (shape : start.rest = c :: rest) :
    start.Reaches [c] start.next := by
  constructor <;> simp [Cursor.next, shape]

theorem drop (cursor : Cursor) (count : Nat) :
    cursor.Reaches (cursor.rest.take count) (cursor.drop count) := by
  induction count generalizing cursor with
  | zero => simpa [Cursor.drop] using refl cursor
  | succ count ih =>
    cases shape : cursor.rest with
    | nil =>
      have still : cursor.next = cursor := by simp [Cursor.next, shape]
      have stays := ih cursor
      rw [shape, take_nil] at stays
      simpa [Cursor.drop, still] using stays
    | cons c rest =>
      have moved : cursor.next.rest = rest := by simp [Cursor.next, shape]
      have tail := ih cursor.next
      rw [moved] at tail
      simpa [Cursor.drop] using (next shape).trans tail

theorem skipWhile (accept : Char → Bool) (cursor : Cursor) :
    cursor.Reaches (cursor.rest.takeWhile accept) (cursor.skipWhile accept) := by
  have moved := drop cursor (cursor.rest.takeWhile accept).length
  rwa [prefix_iff_eq_take.mp (List.takeWhile_prefix accept) |>.symm] at moved

theorem textTo (reached : start.Reaches text stop) : start.textTo stop = String.ofList text := by
  have length : stop.offset - start.offset = text.length := by
    rw [reached.offset]
    omega
  rw [Cursor.textTo, length, reached.rest, take_left]

theorem not_mem {c : Char} (reached : start.Reaches text stop) (free : c ∉ start.rest) : c ∉ stop.rest :=
  fun member => free (reached.rest ▸ mem_append_right text member)

theorem length (reached : start.Reaches text stop) : start.rest.length = text.length + stop.rest.length := by
  rw [reached.rest, length_append]

theorem standsAfter {before : List Char} (reached : start.Reaches text stop)
    (stands : start.StandsAfter before) : stop.StandsAfter (before ++ text) := by
  refine ⟨?_, ?_⟩
  · rw [reached.offset, stands.1, length_append]
  · rw [reached.position, stands.2, positionAfter_append]

end Reaches

theorem drop_rest (cursor : Cursor) (count : Nat) : (cursor.drop count).rest = cursor.rest.drop count := by
  have split := (Reaches.drop cursor count).rest
  have whole := take_append_drop count cursor.rest
  exact append_cancel_left (split.symm.trans whole.symm)

theorem skipWhile_rest (accept : Char → Bool) (cursor : Cursor) :
    (cursor.skipWhile accept).rest = cursor.rest.dropWhile accept := by
  have split := (Reaches.skipWhile accept cursor).rest
  have whole := takeWhile_append_dropWhile (p := accept) (l := cursor.rest)
  exact append_cancel_left (split.symm.trans whole.symm)

theorem current_of_rest {cursor : Cursor} {c : Char} {rest : List Char}
    (shape : cursor.rest = c :: rest) : cursor.current = c := by
  simp [current, shape]

theorem peek_quotes {cursor : Cursor} {quote : Char} {after : List Char}
    (inText : quote ≠ endChar) (shape : cursor.rest = quote :: after) :
    (cursor.peek 1 == quote && cursor.peek 2 == quote) = [quote, quote].isPrefixOf after := by
  rw [peek, peek, shape]
  rcases after with _ | ⟨c, _ | ⟨d, rest⟩⟩
  · simp [Ne.symm inText]
  · simp [Ne.symm inText, isPrefixOf]
  · simp [isPrefixOf, Bool.beq_comm]

theorem exists_rest_of_not_atEnd {cursor : Cursor} (going : cursor.atEnd = false) :
    ∃ c rest, cursor.rest = c :: rest ∧ c ≠ endChar := by
  cases shape : cursor.rest with
  | nil => simp [atEnd, current, shape] at going
  | cons c rest => exact ⟨c, rest, rfl, by simpa [atEnd, current, shape] using going⟩

end Cursor

end Stubwise
