import Stubwise.Proofs.Lexer.Reach

namespace Stubwise.Lexer

open List Cursor

variable {inBrackets : Bool} {c : Char} {after rest : List Char}

/-- The characters that only separate tokens. -/
def isSeparator (c : Char) : Bool :=
  c == ' ' || c == '\t' || c == '\r' || c == Char.ofNat 12 || c == '\n'

def startsLineEnd : List Char → Bool
  | '\n' :: _ | '\r' :: '\n' :: _ => true
  | _ => false

/-- `Gap text after`: in front of `after`, the text consists of separators, of comments that run to
the end of their line, and of the backslashes of line joins. -/
inductive Gap : List Char → List Char → Prop where
  | nil {after : List Char} : Gap [] after
  | separator {c : Char} {text after : List Char} (separates : isSeparator c)
      (rest : Gap text after) : Gap (c :: text) after
  | comment {body text after : List Char} (oneLine : '\n' ∉ body)
      (wholeLine : ∀ c, (text ++ after).head? = some c → c = '\n') (rest : Gap text after) :
      Gap ('#' :: body ++ text) after
  | join {text after : List Char} (joins : startsLineEnd (text ++ after))
      (rest : Gap text after) : Gap ('\\' :: text) after

variable {start stop : Cursor} {gap : List Char}

theorem Gap.separators {text : List Char} {separators : List Char}
    (separate : ∀ c ∈ separators, isSeparator c = true) (rest : Gap text after) :
    Gap (separators ++ text) after := by
  induction separators with
  | nil => exact rest
  | cons c _ ih =>
    exact .separator (separate c (by simp)) (ih fun c member => separate c (by simp [member]))

theorem Gap.append {first second : List Char} (left : Gap first (second ++ after))
    (right : Gap second after) : Gap (first ++ second) after := by
  generalize follows : second ++ after = rest at left
  induction left with
  | nil => exact right
  | separator separates _ ih => exact .separator separates (ih follows)
  | comment oneLine wholeLine _ ih =>
    subst follows
    rw [append_assoc]
    exact .comment oneLine (by simpa only [append_assoc] using wholeLine) (ih rfl)
  | join joins _ ih =>
    subst follows
    rw [cons_append]
    exact .join (by simpa only [append_assoc] using joins) (ih rfl)

theorem skipComment_shape (noEnd : endChar ∉ start.rest) :
    start.skipComment.rest = [] ∨ ∃ rest, start.skipComment.rest = '\n' :: rest := by
  have free := (Reaches.skipWhile (fun c => c != '\n' && c != endChar) start).not_mem noEnd
  have stops := head?_dropWhile_not (fun c => c != '\n' && c != endChar) start.rest
  rw [← skipWhile_rest] at stops
  rw [skipComment]
  cases shape : (start.skipWhile fun c => c != '\n' && c != endChar).rest with
  | nil => exact .inl rfl
  | cons c rest =>
    rw [shape, mem_cons, not_or] at free
    rw [shape] at stops
    grind

/-- From `start` the lexer passes over `gap` to `stop`. The character that stands for the end of the
text may cut a comment short, so only a text without it is passed over in gaps. -/
structure Passes (start : Cursor) (gap : List Char) (stop : Cursor) : Prop where
  reached : start.Reaches gap stop
  isGap : endChar ∉ start.rest → Gap gap stop.rest

namespace Passes

theorem refl (cursor : Cursor) : Passes cursor [] cursor := ⟨.refl cursor, fun _ => .nil⟩

theorem trans {middle : Cursor} {more : List Char}
    (first : Passes start gap middle) (second : Passes middle more stop) :
    Passes start (gap ++ more) stop := by
  refine ⟨first.reached.trans second.reached, fun free => ?_⟩
  have follows := first.isGap free
  rw [second.reached.rest] at follows
  exact follows.append (second.isGap (first.reached.not_mem free))

theorem separator (shape : start.rest = c :: rest)
    (separates : isSeparator c) (passed : Passes start.next gap stop) :
    Passes start (c :: gap) stop := by
  have moved := Cursor.Reaches.next shape
  exact ⟨moved.trans passed.reached, fun free => .separator separates (passed.isGap (moved.not_mem free))⟩

theorem separators {count : Nat} (separate : ∀ c ∈ start.rest.take count, isSeparator c = true)
    (passed : Passes (start.drop count) gap stop) :
    Passes start (start.rest.take count ++ gap) stop := by
  have moved := Cursor.Reaches.drop start count
  exact ⟨moved.trans passed.reached, fun free => .separators separate (passed.isGap (moved.not_mem free))⟩

theorem comment (shape : start.rest = '#' :: rest) (passed : Passes start.skipComment gap stop) :
    Passes start ('#' :: rest.takeWhile (fun c => c != '\n' && c != endChar) ++ gap) stop := by
  have moved := Cursor.Reaches.skipWhile (fun c => c != '\n' && c != endChar) start
  have body : start.rest.takeWhile (fun c => c != '\n' && c != endChar) =
      '#' :: rest.takeWhile (fun c => c != '\n' && c != endChar) := by
    rw [shape]
    rfl
  rw [body] at moved
  refine ⟨moved.trans passed.reached, fun free => ?_⟩
  refine .comment ?_ ?_ (passed.isGap (moved.not_mem free))
  · intro member
    have kept := all_eq_true.mp all_takeWhile '\n' member
    simp at kept
  · intro c first
    -- The comment stopped at a line end, since the text holds no end mark.
    rw [← passed.reached.rest] at first
    rcases skipComment_shape free with ended | ⟨rest, ended⟩ <;> rw [ended] at first <;> cases first
    rfl

theorem join (joins : joinLength start.rest ≠ 0)
    (passed : Passes (start.next.drop (joinLength start.rest - 1)) gap stop) :
    Passes start (start.rest.take (joinLength start.rest) ++ gap) stop := by
  have step {c : Char} {rest : List Char} (shape : start.rest = c :: rest) (count : Nat) :
      start.Reaches (start.rest.take (count + 1)) (start.next.drop count) := by
    have moved := (Cursor.Reaches.next shape).trans (Cursor.Reaches.drop start.next count)
    have after : start.next.rest = rest := by simp [Cursor.next, shape]
    rw [after] at moved
    rw [shape]
    exact moved
  unfold joinLength at joins passed ⊢
  split at passed
  · rename_i rest shape
    have moved := step shape 1
    refine ⟨moved.trans passed.reached, fun free => ?_⟩
    rw [shape]
    exact .join rfl (.separator rfl (passed.isGap (moved.not_mem free)))
  · rename_i rest shape
    have moved := step shape 2
    refine ⟨moved.trans passed.reached, fun free => ?_⟩
    rw [shape]
    exact .join rfl (.separator rfl (.separator rfl (passed.isGap (moved.not_mem free))))
  · rename_i neither carriage
    split at joins
    · rename_i rest shape
      exact absurd shape (neither rest)
    · rename_i rest shape
      exact absurd shape (carriage rest)
    · exact absurd rfl joins

end Passes

theorem isSeparator_of_blank
    (blank : (isBlank c || (inBrackets && c == '\n')) = true) : isSeparator c = true := by
  simp only [isBlank, isSeparator] at *
  grind

theorem skipTrivia_passes (inBrackets : Bool) (cursor : Cursor) :
    ∃ gap, Passes cursor gap (skipTrivia inBrackets cursor) := by
  fun_induction skipTrivia inBrackets cursor with
  | case1 cursor => exact ⟨[], .refl cursor⟩
  | case2 _ _ _ shape blank ih =>
    obtain ⟨gap, passed⟩ := ih
    exact ⟨_, passed.separator shape (isSeparator_of_blank blank)⟩
  | case3 _ _ _ shape _ comment ih =>
    obtain ⟨gap, passed⟩ := ih
    exact ⟨_, passed.comment (by rw [shape, eq_of_beq comment])⟩
  | case4 _ _ _ _ _ _ join joins ih =>
    obtain ⟨gap, passed⟩ := ih
    exact ⟨_, passed.join (by simpa using joins)⟩
  | case5 cursor => exact ⟨[], .refl cursor⟩

theorem skipTrivia_current_ne (skipped : (isBlank c || (inBrackets && c == '\n')) = true) (cursor : Cursor) :
    (skipTrivia inBrackets cursor).current ≠ c := by
  fun_induction skipTrivia inBrackets cursor with
  | case1 _ shape =>
    rw [Cursor.current, shape]
    rintro rfl
    cases inBrackets <;> cases skipped
  | case2 cursor d rest shape blank ih | case3 cursor d rest shape blank comment ih
  | case4 _ _ _ _ _ _ _ _ ih => exact ih
  | case5 _ _ _ shape blank =>
    rw [current_of_rest shape]
    rintro rfl
    exact blank skipped

theorem seekLine_passes (cursor : Cursor) : ∃ gap, Passes cursor gap (seekLine cursor).2 := by
  have indentation (cursor : Cursor) : ∀ c ∈ cursor.rest.take
      (cursor.rest.takeWhile isIndentBlank).length, isSeparator c = true := by
    rw [← prefix_iff_eq_take.mp (List.takeWhile_prefix isIndentBlank)]
    intro c member
    have blank := all_eq_true.mp all_takeWhile c member
    simp only [isIndentBlank, isSeparator] at *
    grind
  fun_induction seekLine cursor with
  | case1 cursor blanks start shape | case4 cursor blanks start c rest shape comment lineEnd atEnd
  | case5 cursor _ _ start =>
    exact ⟨_, (Passes.refl start).separators (indentation cursor)⟩
  | case2 cursor _ start _ rest shape comment ih =>
    obtain ⟨gap, passed⟩ := ih
    have hash : start.rest = '#' :: rest := by rw [shape, eq_of_beq comment]
    exact ⟨_, (passed.comment hash).separators (indentation cursor)⟩
  | case3 cursor _ _ c _ shape _ _ ih =>
    obtain ⟨gap, passed⟩ := ih
    have separates : isSeparator c = true := by
      simp only [isSeparator]
      grind
    exact ⟨_, (passed.separator shape separates).separators (indentation cursor)⟩

end Stubwise.Lexer
