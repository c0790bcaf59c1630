import Stubwise.Proofs.Lexer.Step

namespace Stubwise.Lexer

open List Cursor

variable {lexer after : Lexer} {token : Token}
  {start : Cursor} {indents : List Nat} {later tokens : List Token} {fuel unit : Nat}

/-- What the lexer has left to do, where a character of the text weighs `unit`. -/
def weight (unit : Nat) (lexer : Lexer) : Nat :=
  unit * lexer.cursor.rest.length + 2 * lexer.indents.length + lexer.pending.length +
    (if lexer.finished then 0 else 2)

theorem settle_passes (lexer : Lexer) : ∃ gap, Passes lexer.cursor gap lexer.settle.cursor := by
  cases atStart : lexer.atLineStart && lexer.depth == 0 with
  | true =>
    have moved : lexer.settle.cursor = (seekLine lexer.cursor).2 := by simp [settle, atStart]
    rw [moved]
    exact seekLine_passes lexer.cursor
  | false =>
    have stays : lexer.settle.cursor = lexer.cursor := by simp [settle, atStart]
    rw [stays]
    exact ⟨[], .refl _⟩

theorem start_passes (reached : skipTrivia (lexer.depth != 0) lexer.settle.cursor = start) :
    ∃ gap, Passes lexer.cursor gap start := by
  obtain ⟨gap, settled⟩ := settle_passes lexer
  obtain ⟨more, skipped⟩ := skipTrivia_passes (lexer.depth != 0) lexer.settle.cursor
  rw [reached] at skipped
  exact ⟨_, settled.trans skipped⟩

theorem start_length_le (reached : skipTrivia (lexer.depth != 0) lexer.settle.cursor = start) :
    start.rest.length ≤ lexer.cursor.rest.length := by
  obtain ⟨gap, passed⟩ := start_passes reached
  have length := passed.reached.length
  omega

theorem layoutTokens_cons (layout : lexer.layoutTokens = (indents, token :: later)) :
    ∃ width, seekLine lexer.cursor = (some width, lexer.settle.cursor) ∧
      lexer.settle.atLineStart = false ∧ lexer.depth = 0 ∧ lexer.atLineStart = true ∧
      indentTokens width lexer.settle.cursor.position.line lexer.indents = (indents, token :: later) := by
  unfold layoutTokens at layout
  split at layout
  · rename_i atStart
    have moved : lexer.settle.cursor = (seekLine lexer.cursor).2 := by simp [settle, atStart]
    have flag : lexer.settle.atLineStart = false := by simp [settle, atStart]
    simp only [Bool.and_eq_true, beq_iff_eq] at atStart
    split at layout
    · simp at layout
    · rename_i width cursor found
      rw [found] at moved
      exact ⟨width, by rw [found, moved], flag, atStart.2, atStart.1, by rw [moved]; exact layout⟩
  · simp at layout

theorem weight_laidOut (large : 3 ≤ unit) (layout : lexer.layoutTokens = (indents, token :: later)) :
    unit * lexer.settle.cursor.rest.length + 2 * indents.length + later.length <
      unit * lexer.cursor.rest.length + 2 * lexer.indents.length := by
  obtain ⟨width, found, _, _, _, tokens⟩ := layoutTokens_cons layout
  have bound := (seekLine_some found).1
  have scaled : unit * lexer.settle.cursor.rest.length ≤ unit * lexer.cursor.rest.length :=
    Nat.mul_le_mul_left unit (by omega)
  rcases indentTokens_cases width lexer.settle.cursor.position.line lexer.indents with
    ⟨wider, opened⟩ | ⟨count, fault, some, kept, single, _, closed⟩ | unchanged
  · have shorter : lexer.settle.cursor.rest.length + 1 ≤ lexer.cursor.rest.length := by omega
    have paid := Nat.mul_le_mul_left unit shorter
    rw [opened] at tokens
    cases tokens
    rw [Nat.mul_add] at paid
    simp only [length_cons, length_nil]
    omega
  · rw [closed] at tokens
    obtain ⟨rfl, sequence⟩ := Prod.mk.inj tokens
    have length := congrArg length sequence
    simp only [length_append, length_replicate, length_cons] at length
    rw [length_drop]
    omega
  · simp [unchanged] at tokens

theorem closingTokens_length (lexer : Lexer) : lexer.closingTokens.length ≤ lexer.indents.length + 2 := by
  unfold closingTokens
  split <;> simp

/-- Every step but the last makes the lexer lighter. -/
theorem Step.weight_lt (large : 3 ≤ unit) (step : Step lexer token after)
    (going : token.kind ≠ .eof) : after.weight unit < lexer.weight unit := by
  have shorter {start stop : Cursor} (short : stop.rest.length < start.rest.length)
      (reached : skipTrivia (lexer.depth != 0) lexer.settle.cursor = start) :
      unit * stop.rest.length + unit ≤ unit * lexer.cursor.rest.length := by
    have bound := start_length_le reached
    have scaled : unit * (stop.rest.length + 1) ≤ unit * lexer.cursor.rest.length :=
      Nat.mul_le_mul_left unit (by omega)
    rwa [Nat.mul_add, Nat.mul_one] at scaled
  cases step with
  | given ready => simp [weight, ready]
  | ended => exact absurd rfl going
  | laidOut spent unfinished layout =>
    have paid := weight_laidOut large layout
    simp only [weight, settle, spent, unfinished, length_nil] at paid ⊢
    omega
  | closed spent unfinished layout reached atEnd closing =>
    rename_i start later
    have bound := start_length_le reached
    have scaled : unit * start.rest.length ≤ unit * lexer.cursor.rest.length := Nat.mul_le_mul_left unit bound
    have tokens := closingTokens_length { lexer.settle with cursor := start }
    rw [closing] at tokens
    simp only [settle, length_cons] at tokens
    simp only [weight, spent, unfinished, length_nil]
    simp only [if_true, Bool.false_eq_true, if_false]
    omega
  | lineEnd spent unfinished layout reached inText atLineEnd =>
    obtain ⟨c, rest, shape, _⟩ := exists_rest_of_not_atEnd inText
    have paid := shorter (next_length shape) reached
    simp only [weight, settle, spent, unfinished]
    omega
  | read spent unfinished _ reached inText =>
    obtain ⟨c, rest, shape, _⟩ := exists_rest_of_not_atEnd inText
    have paid := shorter (readToken_takes shape).shortens reached
    simp only [weight, settle, spent, unfinished]
    omega

theorem next_step (lexer : Lexer) :
    ∃ scanned, Step lexer lexer.next.1 scanned ∧
      lexer.next.2 = { scanned with last := some lexer.next.1.kind } :=
  ⟨lexer.scan.2, scan_step lexer, rfl⟩

theorem next_weight_lt (large : 3 ≤ unit) (going : lexer.next.1.kind ≠ .eof) :
    lexer.next.2.weight unit < lexer.weight unit := by
  obtain ⟨scanned, step, result⟩ := next_step lexer
  have less := step.weight_lt large going
  rw [result]
  exact less

/-- The lexer gives these tokens, up to and with the first `eof`. -/
inductive Yields : Lexer → List Token → Prop where
  | last {lexer : Lexer} (ended : lexer.next.1.kind = .eof) : Yields lexer [lexer.next.1]
  | more {lexer : Lexer} {tokens : List Token} (going : lexer.next.1.kind ≠ .eof)
      (rest : Yields lexer.next.2 tokens) : Yields lexer (lexer.next.1 :: tokens)

theorem Yields.ends (yields : Yields lexer tokens) :
    ∃ body eof, tokens = body ++ [eof] ∧ eof.kind = .eof ∧ ∀ token ∈ body, token.kind ≠ .eof := by
  induction yields with
  | last ended => exact ⟨[], _, rfl, ended, by simp⟩
  | more going _ ih =>
    obtain ⟨body, eof, rfl, kind, others⟩ := ih
    exact ⟨_ :: body, eof, rfl, kind, forall_mem_cons.mpr ⟨going, others⟩⟩

theorem Yields.congr {other : Lexer} (yields : lexer.Yields tokens)
    (same : other.next = lexer.next) : other.Yields tokens := by
  cases yields with
  | last ended =>
    rw [← same] at ended ⊢
    exact .last ended
  | more going later =>
    rw [← same] at going later ⊢
    exact .more going later

theorem Yields.ne_nil (yields : lexer.Yields tokens) : tokens ≠ [] := by
  cases yields <;> exact cons_ne_nil _ _

theorem Yields.unique {others : List Token} (yields : lexer.Yields tokens)
    (again : lexer.Yields others) : tokens = others := by
  induction yields generalizing others with
  | last ended =>
    cases again with
    | last => rfl
    | more going => exact absurd ended going
  | more going _ ih =>
    cases again with
    | last ended => exact absurd ended going
    | more _ rest => rw [ih rest]

theorem tokensWithin_length_le (fuel : Nat) (lexer : Lexer) : (tokensWithin fuel lexer).length ≤ fuel := by
  fun_induction tokensWithin fuel lexer with
  | case1 => exact Nat.le_refl 0
  | case2 => simp
  | case3 _ _ _ _ _ _ ih => exact Nat.succ_le_succ ih

theorem tokensWithin_yields (enough : lexer.weight 3 < fuel) : Yields lexer (tokensWithin fuel lexer) := by
  induction fuel generalizing lexer with
  | zero => cases enough
  | succ fuel ih =>
    simp only [tokensWithin]
    split
    · rename_i ended
      exact .last (eq_of_beq ended)
    · rename_i going
      have going : lexer.next.1.kind ≠ .eof := by simpa using going
      have less := next_weight_lt (Nat.le_refl 3) going
      exact .more going (ih (by omega))

/-- Fuel beyond the weight of the lexer changes nothing. -/
theorem tokensWithin_add (enough : lexer.weight 3 < fuel) (extra : Nat) :
    tokensWithin (fuel + extra) lexer = tokensWithin fuel lexer := by
  induction fuel generalizing lexer with
  | zero => cases enough
  | succ fuel ih =>
    rw [Nat.add_right_comm]
    simp only [tokensWithin]
    split
    · rfl
    · rename_i going
      have going : lexer.next.1.kind ≠ .eof := by simpa using going
      have less := next_weight_lt (Nat.le_refl 3) going
      rw [ih (by omega)]

theorem weight_ofText (source : String) : (ofText source).weight 3 < tokenBound source.length := by
  simp only [weight, ofText, ofChars, tokenBound, String.length_toList, length_nil]
  simp only [Bool.false_eq_true, if_false]
  omega

theorem tokenize_yields (source : String) : Yields (ofText source) (tokenize source) := by
  have enough := weight_ofText source
  exact tokensWithin_yields enough

end Stubwise.Lexer
