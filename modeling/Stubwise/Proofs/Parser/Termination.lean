import Stubwise.Proofs.Parser.Recovery

namespace Stubwise.Parser

open Lexer LiveStream

variable {source : List Char} {top rank : Nat} {state : State}

theorem statementWithin_readsAt {fuel : Nat} (enough : rank < fuel) :
    ReadsAt source top rank (statementWithin fuel) := by
  induction fuel generalizing rank with
  | zero => cases enough
  | succ _ ih =>
    exact statementWith_readsAt ⟨fun lower less =>
      ih (by omega)⟩

theorem statement_readsAt : ReadsAt source top rank statement := by
  intro state ranks going
  exact statementWithin_readsAt ranks.lt_budget ranks going

theorem statement_advance_ranks (ranks : state.Ranks source top rank) (going : state.current.kind ≠ .eof) :
    ∃ lower < rank, ((statement >>= fun _ => advance).run state).2.Ranks source top lower := by
  obtain ⟨lower, rfl⟩ := ranks.exists_pred going
  exact ⟨lower, Nat.lt_succ_self _, (statement_readsAt ranks going).advanced⟩

theorem moduleStmts_ranks {turns : Nat} (ranks : state.Ranks source top rank) (enough : rank < turns) :
    ((moduleStmts turns).run state).2.Ranks source top rank ∧
      ((moduleStmts turns).run state).2.current.kind = .eof := by
  induction turns generalizing state rank with
  | zero => cases enough
  | succ turns ih =>
    unfold moduleStmts
    rw [run_bind, run_currentIs]
    split
    · rename_i ended
      exact ⟨ranks, eq_of_beq ended⟩
    · rename_i going
      obtain ⟨lower, less, later⟩ := statement_advance_ranks ranks (by simpa using going)
      obtain ⟨rest, last⟩ := ih later (by omega)
      exact ⟨rest.mono (by omega) ranks.le_top, last⟩

def startRank (source : String) : Nat :=
  unit source.toList * source.length + 2

theorem startRank_lt_turnBound (source : String) : startRank source < turnBound source.length := by
  simp only [startRank, turnBound, unit, String.length_toList]
  rw [Nat.mul_succ]
  omega

theorem tokenize_descends (source : String) :
    Lexer.Descends source.toList (startRank source) (tokenize source) := by
  have weight : (Lexer.ofText source).weight (Lexer.unit source.toList) = startRank source := by
    simp [Lexer.weight, Lexer.ofText, Lexer.ofChars, startRank, String.length_toList]
  rw [← weight]
  exact (tokenize_yields source).descends (sound_ofText source)

theorem tokenize_length_le (source : String) :
    (tokenize source).length ≤ turnBound source.length :=
  Nat.le_trans (tokenize_descends source).length_le (startRank_lt_turnBound source)

theorem startText_ranks (file source : String) (firstNode : Nat) :
    (startText file source firstNode).Ranks source.toList (startRank source) (startRank source) := by
  have keeps : ∀ lexer : Lexer, lexer.Sound source.toList → lexer.next.2.Sound source.toList :=
    fun _ => Lexer.Sound.next
  refine ⟨_, ⟨startText_reads file source firstNode, Nat.zero_le _, rfl, tokenize_length_le source⟩,
    ?_, tokenize_descends source, Nat.le_refl _, startRank_lt_turnBound source⟩
  exact ⟨(LiveStream.ofText source).next.2.next.2, rfl,
    next_keeps keeps (next_keeps keeps (sound_ofText source))⟩

/-- Parsing ends, in front of `eof` and without a loop that ran out of turns. Abandoning a bracket
that a statement on `line` left open leads to the start of a line behind it, or to the end of the
text; and every turn of a loop over statements lowers the rank, whether it took tokens or went back. -/
theorem parsing_ends (file source : String) (firstNode : Nat) :
    (let start := startText file source firstNode
      let last := ((moduleStmts start.budget).run start).2
      last.exhausted = false ∧ last.current.kind = .eof) ∧
    (∀ (lexer : Lexer) (line : Nat),
      let resumed := lexer.resumeAfter line
      resumed.cursor.rest = [] ∨ ∃ before, lexer.source = before ++ resumed.cursor.rest ∧
          resumed.cursor.StandsAfter before ∧ resumed.cursor.position.col = 1 ∧
          line < resumed.cursor.position.line) ∧
    ∀ (top rank : Nat) (state : State), state.Ranks source.toList top rank →
      state.current.kind ≠ .eof → ∃ lower < rank,
        ((statement >>= fun _ => advance).run state).2.Ranks source.toList top lower := by
  have ranks := startText_ranks file source firstNode
  obtain ⟨final, ended⟩ := moduleStmts_ranks ranks ranks.lt_budget
  refine ⟨⟨final.calm, ended⟩, fun lexer line => resumeAfter_place line lexer, ?_⟩
  exact fun top rank state ranks going => statement_advance_ranks ranks going

/-- The bracket of the first line is never closed; the second statement is read all the same. -/
theorem parsing_ends_behind_open_bracket :
    let start := startText "" "f(\nx = 1\n" 0
    start.current.kind ≠ .eof ∧ (∃ lower < startRank "f(\nx = 1\n",
      ((statement >>= fun _ => advance).run start).2.Ranks "f(\nx = 1\n".toList
        (startRank "f(\nx = 1\n") lower) := by
  have going : (startText "" "f(\nx = 1\n" 0).current.kind ≠ .eof := by decide +kernel
  exact ⟨going, (parsing_ends "" "f(\nx = 1\n" 0).2.2 _ _ _ (startText_ranks _ _ _) going⟩

end Stubwise.Parser
