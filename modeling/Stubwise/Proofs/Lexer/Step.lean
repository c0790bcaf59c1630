import Stubwise.Proofs.Lexer.Lexeme
import Stubwise.Proofs.Lexer.Trivia

/-!
What one step of the lexer can do, said once: it gives a pending token, goes on at the end of the
text, settles the layout of a line, or reads on.
-/

namespace Stubwise.Lexer

open List Cursor

variable {lexer : Lexer} {token : Token} {after : Lexer}

theorem advanceWidth_le (width : Nat) (c : Char) : advanceWidth width c ≤ width + 8 := by
  unfold advanceWidth tabSize
  split
  · omega
  · split <;> omega

theorem foldl_advanceWidth_le (blanks : List Char) (width : Nat) :
    blanks.foldl advanceWidth width ≤ width + 8 * blanks.length := by
  induction blanks generalizing width with
  | nil => exact Nat.le_refl _
  | cons c _ ih =>
    have first := advanceWidth_le width c
    have others := ih (advanceWidth width c)
    simp only [foldl_cons, length_cons]
    omega

theorem seekLine_some {cursor stop : Cursor} {width : Nat} (found : seekLine cursor = (some width, stop)) :
    width + 8 * stop.rest.length ≤ 8 * cursor.rest.length ∧
      ∃ c rest, stop.rest = c :: rest ∧ c ≠ '\n' ∧ c ≠ endChar := by
  fun_induction seekLine cursor with
  | case1 => cases found
  | case2 cursor _ start _ rest shape comment ih =>
    obtain ⟨bound, first⟩ := ih found
    have hash : start.rest = '#' :: rest := by rw [shape, eq_of_beq comment]
    have skipped := skipComment_length hash
    have dropped : start.rest.length ≤ cursor.rest.length := drop_length _ cursor
    exact ⟨by omega, first⟩
  | case3 cursor blanks start c rest shape comment lineEnd ih =>
    obtain ⟨bound, first⟩ := ih found
    have skipped := next_length shape
    have dropped : start.rest.length ≤ cursor.rest.length := drop_length _ cursor
    exact ⟨by omega, first⟩
  | case4 => cases found
  | case5 cursor blanks measure start c rest shape _ lineEnd atEnd =>
    obtain ⟨rfl, rfl⟩ : measure = width ∧ start = stop := by simpa using found
    have measured := foldl_advanceWidth_le blanks 0
    have taken : blanks.length ≤ cursor.rest.length := (List.takeWhile_prefix isIndentBlank).length_le
    have length : start.rest.length = cursor.rest.length - blanks.length := by
      rw [drop_rest, length_drop]
    refine ⟨by omega, c, rest, shape, ?_, ?_⟩
    · rintro rfl
      simp at lineEnd
    · rintro rfl
      simp at atEnd

/-- The layout tokens in front of the next token, with the blocks that are open behind them. -/
def layoutTokens (lexer : Lexer) : List Nat × List Token :=
  if lexer.atLineStart && lexer.depth == 0 then
    match seekLine lexer.cursor with
    | (none, _) => (lexer.indents, [])
    | (some width, cursor) => indentTokens width cursor.position.line lexer.indents
  else (lexer.indents, [])

def settle (lexer : Lexer) : Lexer :=
  let atStart := lexer.atLineStart && lexer.depth == 0
  { lexer with
    cursor := if atStart then (seekLine lexer.cursor).2 else lexer.cursor
    atLineStart := lexer.atLineStart && !atStart }

theorem closeBlocks_eq (width : Nat) (position : Position) (indents : List Nat) :
    ∃ count, count ≤ indents.length ∧ (width < indents.headD 0 → 0 < count) ∧
      closeBlocks width position indents =
        (indents.drop count, replicate count (layout .dedent position)) := by
  induction indents with
  | nil => exact ⟨0, Nat.le_refl _, by simp, rfl⟩
  | cons open_ _ ih =>
    obtain ⟨count, bound, _, closed⟩ := ih
    by_cases narrower : width < open_
    · refine ⟨count + 1, Nat.succ_le_succ bound, fun _ => Nat.succ_pos count, ?_⟩
      simp [closeBlocks, narrower, closed, replicate_succ]
    · exact ⟨0, Nat.zero_le _, fun wider => absurd wider narrower, by simp [closeBlocks, narrower]⟩

theorem indentTokens_cases (width line : Nat) (indents : List Nat) :
    (indents.headD 0 < width ∧ indentTokens width line indents =
      (width :: indents, [layout .indent ⟨line, 1⟩])) ∨
    (∃ count fault, 0 < count ∧ count ≤ indents.length ∧ fault.length ≤ 1 ∧
      (∀ token ∈ fault, token.kind = .illegal ∧ token.lexeme = "" ∧ token.position.line = line) ∧
      indentTokens width line indents =
        (indents.drop count, replicate count (layout .dedent ⟨line, 1⟩) ++ fault)) ∨
    indentTokens width line indents = (indents, []) := by
  unfold indentTokens
  dsimp only
  split
  · rename_i wider
    exact .inl ⟨wider, rfl⟩
  · split
    · rename_i narrower
      obtain ⟨count, bound, some, closed⟩ := closeBlocks_eq width ⟨line, 1⟩ indents
      rw [closed]
      refine .inr (.inl ⟨count, ?_⟩)
      split
      · exact ⟨[], some narrower, bound, by simp, by simp, by simp⟩
      · exact ⟨[_], some narrower, bound, Nat.le_refl 1, forall_mem_singleton.mpr ⟨rfl, rfl, rfl⟩, rfl⟩
    · exact .inr (.inr rfl)

theorem indentTokens_nil {width line : Nat} {indents kept : List Nat}
    (same : indentTokens width line indents = (kept, [])) : kept = indents := by
  rcases indentTokens_cases width line indents with
    ⟨_, opened⟩ | ⟨count, fault, some, _, _, _, closed⟩ | unchanged
  · simp [opened] at same
  · rw [closed] at same
    have none := (Prod.mk.inj same).2
    simp only [append_eq_nil_iff, replicate_eq_nil_iff] at none
    omega
  · rw [unchanged] at same
    exact (Prod.mk.inj same).1.symm

inductive Step (lexer : Lexer) : Token → Lexer → Prop where
  | given {token : Token} {later : List Token} (ready : lexer.pending = token :: later) :
      Step lexer token { lexer with pending := later }
  | ended (spent : lexer.pending = []) (finished : lexer.finished) :
      Step lexer (endToken .eof lexer.cursor.position) lexer
  | laidOut {indents : List Nat} {token : Token} {later : List Token}
      (spent : lexer.pending = []) (going : lexer.finished = false)
      (layout : lexer.layoutTokens = (indents, token :: later)) :
      Step lexer token { lexer.settle with indents, pending := later }
  | closed {start : Cursor} {token : Token} {later : List Token}
      (spent : lexer.pending = []) (going : lexer.finished = false)
      (layout : lexer.layoutTokens = (lexer.indents, []))
      (reached : skipTrivia (lexer.depth != 0) lexer.settle.cursor = start)
      (atEnd : start.atEnd)
      (closing : closingTokens { lexer.settle with cursor := start } = token :: later) :
      Step lexer token { lexer.settle with
        cursor := start, pending := later, indents := [], finished := true }
  | lineEnd {start : Cursor}
      (spent : lexer.pending = []) (going : lexer.finished = false)
      (layout : lexer.layoutTokens = (lexer.indents, []))
      (reached : skipTrivia (lexer.depth != 0) lexer.settle.cursor = start)
      (inText : start.atEnd = false) (atLineEnd : start.current = '\n') :
      Step lexer { kind := .newline, lexeme := "\n", position := start.position }
        { lexer.settle with cursor := start.next, atLineStart := true }
  | read {start : Cursor}
      (spent : lexer.pending = []) (going : lexer.finished = false)
      (layout : lexer.layoutTokens = (lexer.indents, []))
      (reached : skipTrivia (lexer.depth != 0) lexer.settle.cursor = start)
      (inText : start.atEnd = false) (inLine : start.current ≠ '\n') :
      Step lexer (readToken start).1 { lexer.settle with
        cursor := (readToken start).2
        depth := depthAfter lexer.depth (readToken start).1.kind }

theorem closingTokens_ne_nil (lexer : Lexer) : closingTokens lexer ≠ [] := by
  simp [closingTokens]

theorem readOn_step (spent : lexer.pending = []) (going : lexer.finished = false)
    (layout : lexer.layoutTokens = (lexer.indents, [])) :
    Step lexer (readOn lexer.settle).1 (readOn lexer.settle).2 := by
  unfold readOn
  dsimp only
  split
  · rename_i atEnd
    unfold givePending
    split
    · rename_i none
      exact absurd none (closingTokens_ne_nil _)
    · rename_i token later closing
      exact .closed spent going layout rfl atEnd closing
  · rename_i inText
    split
    · rename_i atLineEnd
      exact .lineEnd spent going layout rfl (by simpa using inText) (by simpa using atLineEnd)
    · rename_i inLine
      exact .read spent going layout rfl (by simpa using inText) (by simpa using inLine)

/-- Every scan is a step. -/
theorem scan_step (lexer : Lexer) : Step lexer lexer.scan.1 lexer.scan.2 := by
  unfold scan
  split
  · rename_i ready
    unfold givePending
    cases pending : lexer.pending with
    | nil => simp [pending] at ready
    | cons => exact .given pending
  · rename_i spent
    have spent : lexer.pending = [] := by simpa using spent
    split
    · rename_i finished
      exact .ended spent finished
    · rename_i going
      have going : lexer.finished = false := by simpa using going
      cases atStart : lexer.atLineStart && lexer.depth == 0 with
      | true =>
        have settled : lexer.settle =
            { lexer with cursor := (seekLine lexer.cursor).2, atLineStart := false } := by
          simp [settle, atStart]
        rw [if_pos rfl]
        cases found : seekLine lexer.cursor with
        | mk width cursor =>
          rw [found] at settled
          cases width with
          | none =>
            have layout : lexer.layoutTokens = (lexer.indents, []) := by
              simp [layoutTokens, atStart, found]
            simpa only [settled] using readOn_step spent going layout
          | some width =>
            have layout : lexer.layoutTokens = indentTokens width cursor.position.line lexer.indents := by
              simp [layoutTokens, atStart, found]
            cases result : indentTokens width cursor.position.line lexer.indents with
            | mk _ tokens =>
              rw [result] at layout
              cases tokens with
              | nil =>
                have step := readOn_step spent going (by rw [layout, indentTokens_nil result])
                simpa only [settled, result, isEmpty_nil, if_true] using step
              | cons =>
                have step := Step.laidOut spent going layout
                simpa only [settled, result, isEmpty_cons, Bool.false_eq_true,
                  if_false, givePending] using step
      | false =>
        have settled : lexer.settle = lexer := by simp [settle, atStart]
        have layout : lexer.layoutTokens = (lexer.indents, []) := by
          simp [layoutTokens, atStart]
        rw [if_neg Bool.false_ne_true]
        simpa only [settled] using readOn_step spent going layout

end Stubwise.Lexer
