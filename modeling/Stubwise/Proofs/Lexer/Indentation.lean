import Mathlib.Data.List.Infix
import Stubwise.Proofs.Lexer.LineEndings
import Stubwise.Proofs.Lexer.Resume

/-!
The two measures of indentation: that of the lexer at the start of a line, and that of the search for
a line to go on with.
-/

namespace Stubwise

open List

variable {source text : List Char}

theorem textAfter_suffix (count : Nat) (text : List Char) : textAfter count text <:+ text := by
  fun_induction textAfter count text with
  | case1 | case2 => exact suffix_rfl
  | case3 count c rest lineEnd ih | case4 count c rest other ih => exact ih.trans (suffix_cons c rest)

theorem textAfter_succ (count : Nat) (text : List Char) :
    textAfter (count + 1) text = (Lexer.afterLine (textAfter count text)).getD [] := by
  induction text generalizing count with
  | nil => cases count <;> rfl
  | cons c rest ih =>
    by_cases lineEnd : (c == '\n') = true <;>
      cases count <;> simp [textAfter, Lexer.afterLine, lineEnd, ih]

/-- Carriage returns stand only directly before line ends. -/
def ReturnsEndLines (source : List Char) : Prop :=
  ∀ tail ∈ source.tails, tail.head? = some '\r' → tail[1]? = some '\n'
  deriving Decidable

/-- The start of the line behind the first `index` lines. -/
def lineStart (source : List Char) (index : Nat) : Cursor where
  rest := textAfter index source
  offset := source.length - (textAfter index source).length
  position := { line := index + 1, col := 1 }

def lineText (source : List Char) (index : Nat) : List Char :=
  (textAfter index source).takeWhile (· != '\n')

theorem Cursor.Reaches.line {start stop : Cursor} (reached : start.Reaches text stop) :
    stop.position.line = start.position.line + text.count '\n' := by
  rw [reached.position]
  clear reached
  generalize start.position = position
  induction text generalizing position with
  | nil => rfl
  | cons c rest ih =>
    rw [foldl_cons, ih, count_cons, after]
    split <;> simp +arith

theorem Cursor.skipWhile_line {accept : Char → Bool} (stops : accept '\n' = false) (cursor : Cursor) :
    (cursor.skipWhile accept).position.line = cursor.position.line := by
  rw [(Reaches.skipWhile accept cursor).line,
    count_eq_zero.mpr (Text.lineEnd_not_mem_takeWhile accept stops cursor.rest), Nat.add_zero]

namespace Lexer

variable {cursor : Cursor}

/-- What the lexer measures on the line where it is, unless it goes on to another one. -/
def ownWidth? (cursor : Cursor) : Option Nat :=
  if (seekLine cursor).2.position.line = cursor.position.line then (seekLine cursor).1 else none

theorem seekLine_line_le (cursor : Cursor) : cursor.position.line ≤ (seekLine cursor).2.position.line := by
  obtain ⟨gap, passes⟩ := seekLine_passes cursor
  rw [passes.reached.line]
  omega

theorem rest_of_seekLine_none (noEnd : endChar ∉ cursor.rest) (none : (seekLine cursor).1 = none) :
    (seekLine cursor).2.rest = [] := by
  have free {cursor : Cursor} (noEnd : endChar ∉ cursor.rest) :
      endChar ∉ (cursor.skipWhile isIndentBlank).rest :=
    (Cursor.Reaches.skipWhile isIndentBlank cursor).not_mem noEnd
  fun_induction seekLine cursor with
  | case1 cursor blanks start shape => exact shape
  | case2 cursor blanks start c rest shape comment ih =>
    exact ih ((Cursor.Reaches.skipWhile _ start).not_mem (free noEnd)) none
  | case3 cursor blanks start c rest shape comment lineEnd ih =>
    exact ih ((Cursor.Reaches.next shape).not_mem (free noEnd)) none
  | case4 cursor blanks start c rest shape comment lineEnd atEnd =>
    refine absurd ?_ (free noEnd)
    rw [show (cursor.skipWhile isIndentBlank).rest = c :: rest from shape, eq_of_beq atEnd]
    exact mem_cons_self
  | case5 => cases none

/-- A line is left when its end is reached. -/
theorem ownWidth?_of_lineEnd {later : Cursor} (moves : seekLine cursor = seekLine later)
    (same : later.position.line = cursor.position.line)
    (shape : later.rest = [] ∨ ∃ rest, later.rest = '\n' :: rest) : ownWidth? cursor = none := by
  rw [ownWidth?, moves, ← same]
  rcases shape with shape | ⟨rest, shape⟩
  · simp [seekLine_eq, Cursor.skipWhile_rest, shape]
  · rw [seekLine_lineEnd shape (.inr rfl), if_neg]
    have next := (Cursor.Reaches.next shape).line
    have onwards := seekLine_line_le later.next
    rw [count_singleton_self] at next
    omega

theorem lineWidth?_blanks (text : List Char) (width : Nat) :
    lineWidth?.go width (text.takeWhile (· != '\n')) =
      lineWidth?.go ((text.takeWhile isIndentBlank).foldl advanceWidth width)
        ((text.dropWhile isIndentBlank).takeWhile (· != '\n')) := by
  induction text generalizing width with
  | nil => rfl
  | cons c rest ih =>
    by_cases blank : isIndentBlank c = true
    · rw [takeWhile_cons_of_pos blank, dropWhile_cons_of_pos blank, foldl_cons, ← ih]
      simp only [isIndentBlank, Bool.or_eq_true, beq_iff_eq] at blank
      rcases blank with (rfl | rfl) | rfl <;> rfl
    · rw [takeWhile_cons_of_neg blank, dropWhile_cons_of_neg blank, foldl_nil]

/-- Both measures agree about the line that starts here. -/
theorem ownWidth?_eq (noEnd : endChar ∉ cursor.rest) (ends : ReturnsEndLines cursor.rest) :
    ownWidth? cursor = lineWidth? (cursor.rest.takeWhile (· != '\n')) := by
  have blanks := Cursor.Reaches.skipWhile isIndentBlank cursor
  have same : (cursor.skipWhile isIndentBlank).position.line = cursor.position.line :=
    cursor.skipWhile_line rfl
  have free := blanks.not_mem noEnd
  have sought := seekLine_eq cursor
  have rest := Cursor.skipWhile_rest isIndentBlank cursor
  have suffix : (cursor.skipWhile isIndentBlank).rest <:+ cursor.rest := ⟨_, blanks.rest.symm⟩
  rw [lineWidth?, lineWidth?_blanks, ← rest]
  generalize cursor.skipWhile isIndentBlank = start at *
  cases shape : start.rest with
  | nil =>
    rw [shape] at sought
    simp [ownWidth?, sought, lineWidth?.go]
  | cons c more =>
    rw [shape] at sought suffix rest
    by_cases comment : c = '#'
    · subst comment
      exact ownWidth?_of_lineEnd sought ((start.skipWhile_line rfl).trans same) (skipComment_shape free)
    by_cases lineEnd : c = '\n'
    · subst lineEnd
      exact ownWidth?_of_lineEnd (sought.trans (seekLine_lineEnd shape (.inr rfl)).symm) same
        (.inr ⟨more, shape⟩)
    by_cases carriage : c = '\r'
    · subst carriage
      obtain ⟨after, rfl⟩ := head?_eq_some_iff.mp
        (head?_eq_getElem?.trans (ends _ ((mem_tails _ _).mpr suffix) rfl))
      exact ownWidth?_of_lineEnd sought ((Cursor.Reaches.next shape).line.trans same)
        (.inr ⟨after, Cursor.next_rest shape⟩)
    have inText : c ≠ endChar := fun ended => free (by rw [shape, ended]; exact mem_cons_self)
    have filled := head?_dropWhile_not isIndentBlank cursor.rest
    rw [← rest] at filled
    simp only [head?_cons, isIndentBlank, Bool.or_eq_false_iff] at filled
    simp [ownWidth?, sought, comment, lineEnd, carriage, inText, same, lineWidth?.go, filled]

/-- A line behind `line` that is indented, no deeper than `width`. -/
def Outside (source : List Char) (line width index : Nat) : Prop :=
  line < index ∧ (lineWidth? (lineText source index)).any (decide <| · ≤ width)

theorem not_outside_of_last {line width number later : Nat}
    (last : afterLine (textAfter number source) = none) (behind : number < later) :
    ¬ Outside source line width later := by
  have ended : textAfter later source = [] := by
    induction behind with
    | refl => rw [textAfter_succ, last]; rfl
    | step _ ih => rw [textAfter_succ, ih]; rfl
  rintro ⟨_, within⟩
  rw [lineText, ended] at within
  cases within

/-- The search gives the first line from `number` on that is outside. -/
theorem resumePoint?_first {line number width : Nat} {limit : Option Nat}
    (own : lineWidth? (lineText source line) = some width)
    (measured : line < number → limit = some width) :
    (∃ found, Outside source line width found ∧
        (∀ between, number ≤ between → between < found → ¬ Outside source line width between) ∧
        resumePoint? (line + 1) (number + 1) limit (textAfter number source) =
          some (found + 1, textAfter found source)) ∨
      (∀ later, number ≤ later → ¬ Outside source line width later) ∧
        resumePoint? (line + 1) (number + 1) limit (textAfter number source) = none := by
  induction length : (textAfter number source).length using Nat.strong_induction_on
    generalizing number limit with
  | h count ih =>
  have limited : line < number + 1 → (if number + 1 == line + 1 then
      lineWidth? (lineText source number) else limit) = some width := by
    intro behind
    by_cases same : number = line
    · simpa [same] using own
    · simpa [same] using measured (by omega)
  rw [resumePoint?_eq, ← lineText]
  dsimp only
  by_cases here : Outside source line width number
  · refine .inl ⟨number, here, fun _ low high => by omega, ?_⟩
    rw [limited (by have := here.1; omega), if_pos ⟨by have := here.1; omega, here.2⟩]
  · have passed (later : Nat) (low : number ≤ later) :
        number + 1 ≤ later ∨ ¬ Outside source line width later :=
      (Nat.eq_or_lt_of_le low).elim (fun same => .inr (same ▸ here)) .inl
    rw [if_neg]
    · cases next : afterLine (textAfter number source) with
      | none =>
        exact .inr ⟨fun later low => (passed later low).elim (not_outside_of_last next) id, rfl⟩
      | some after =>
        have moved : textAfter (number + 1) source = after := by rw [textAfter_succ, next]; rfl
        have shorter := afterLine_length next
        rw [Option.bind_some, ← moved]
        rcases ih _ (by rw [moved]; omega) limited rfl with ⟨found, within, first, point⟩ | ⟨never, point⟩
        · exact .inl ⟨found, within, fun between low high =>
            (passed between low).elim (first between · high) id, point⟩
        · exact .inr ⟨fun later low => (passed later low).elim (never later) id, point⟩
    · rintro ⟨behind, within⟩
      rw [limited (by omega)] at within
      exact here ⟨by omega, within⟩

/-- A line is as wide to the lexer as its text, and the lexer resumes at the next line that is no
wider than the one it failed in. -/
theorem indentation_measures_agree (noEnd : endChar ∉ source) (ends : ReturnsEndLines source) :
    (∀ index, ownWidth? (lineStart source index) = lineWidth? (lineText source index) ∧
      index + 1 ≤ (seekLine (lineStart source index)).2.position.line ∧
      ((seekLine (lineStart source index)).1 = none → (seekLine (lineStart source index)).2.rest = [])) ∧
    ∀ (lexer : Lexer) (line width : Nat), lexer.source = source →
      ownWidth? (lineStart source line) = some width →
      ∃ cursor, lexer.resumeAfter (line + 1) = { lexer with
          cursor, pending := [], depth := 0, atLineStart := true, last := some .newline
          finished := false } ∧
        ((∃ found > line, cursor = lineStart source found ∧
            (ownWidth? (lineStart source found)).any (decide <| · ≤ width) ∧
            ∀ between > line, between < found →
              ¬ (ownWidth? (lineStart source between)).any (decide <| · ≤ width)) ∨
          cursor.rest = [] ∧ ∀ later > line,
            ¬ (ownWidth? (lineStart source later)).any (decide <| · ≤ width)) := by
  have free (index : Nat) : endChar ∉ (lineStart source index).rest :=
    fun member => noEnd ((textAfter_suffix index source).subset member)
  have agree (index : Nat) : ownWidth? (lineStart source index) = lineWidth? (lineText source index) :=
    ownWidth?_eq (free index) fun tail listed => ends tail
      ((mem_tails _ _).mpr (((mem_tails _ _).mp listed).trans (textAfter_suffix index source)))
  refine ⟨fun index => ⟨agree index, seekLine_line_le (lineStart source index),
    rest_of_seekLine_none (free index)⟩,
    fun lexer line width text own => ⟨_, rfl, ?_⟩⟩
  subst text
  simp only [agree] at own ⊢
  have start : textAfter 0 lexer.source = lexer.source := by rw [textAfter]
  have unmet (before : line < 0) : none = some width := by cases before
  rcases resumePoint?_first own unmet with
    ⟨found, within, first, point⟩ | ⟨never, point⟩ <;>
    rw [start, Nat.zero_add] at point <;> simp only [point]
  · exact .inl ⟨found, within.1, rfl, within.2, fun between later high fits =>
      first between (Nat.zero_le _) high ⟨later, fits⟩⟩
  · exact .inr ⟨trivial, fun later behind fits => never later (Nat.zero_le _) ⟨behind, fits⟩⟩

def openCall : List Char :=
  ['f', '(', '\r', '\n', ' ', '\t', 'x', '\r', '\n', ' ', '#', '\n', 'g']

theorem indentation_measures_agree_in_call :
    ownWidth? (lineStart openCall 1) = some 8 ∧
      ∃ found > 0, ((ofChars openCall).resumeAfter 1).cursor = lineStart openCall found := by
  have agree := indentation_measures_agree (by decide : endChar ∉ openCall) (by decide)
  have width (index : Nat) := (agree.1 index).1
  refine ⟨width 1, ?_⟩
  obtain ⟨cursor, resumes, ⟨found, behind, start, _⟩ | ⟨_, never⟩⟩ :=
    agree.2 (ofChars openCall) 0 0 rfl (width 0)
  · exact ⟨found, behind, by rw [resumes, start]⟩
  · refine absurd ?_ (never 3 (by decide))
    rw [width]
    rfl

end Lexer

end Stubwise
