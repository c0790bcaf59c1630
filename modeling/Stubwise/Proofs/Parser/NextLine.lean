import Stubwise.Proofs.Lexer.NextLine
import Stubwise.Proofs.Parser.Line
import Stubwise.Proofs.Parser.ParallelStmt
import Stubwise.Proofs.Parser.Termination

namespace Stubwise.Parser

open List Lexer

open Movable (move)

variable {source : List Char} {top rank : Nat} {state : State} {ending : List Token}
  {later tokens : List Token} {line turns : Nat} {newline start : Token}

namespace State

theorem Before.reads_ending (before : state.Before ending 0) (ended : state.current.kind = .newline) :
    state.Reads ending := by
  obtain ⟨_, line, reads, _, others⟩ := before
  cases line with
  | nil => exact reads
  | cons token =>
    rw [reads.current] at ended
    exact absurd ended (others token (mem_cons_self ..))

theorem Before.not_eof (before : state.Before ending 0) : state.current.kind ≠ .eof := by
  obtain ⟨⟨newline, rest, rfl, kind⟩, line, reads, _, _⟩ := before
  intro ended
  cases line with
  | nil =>
    rw [reads.current, kind] at ended
    cases ended
  | cons _ line =>
    cases line <;> cases reads with
    | more going => exact going ended

/-- The state is behind a statement on `line` that left a bracket open. -/
def Resumes (source : List Char) (line : Nat) (state : State) : Prop :=
  ∃ lexer : Lexer, lexer.Sound source ∧ ∀ {tokens : List Token},
    (lexer.resumeAfter line).Yields tokens →
      ∃ newline : Token, newline.kind = .newline ∧ state.Reads (newline :: tokens)

/-- The state is behind a line: at its end, or further back where a bracket was left. -/
structure LeftLine (source : List Char) (line : Nat) (ending : List Token) (state after : State) :
    Prop where
  depth : after.depth = state.depth
  budget : after.budget = state.budget
  place : after.Reads ending ∨ after.Resumes source line

end State

theorem skipLine_ends (before : state.Before ending 0)
    (calm : ((skipLine turns).run state).2.exhausted = false) :
    ((skipLine turns).run state).2.Reads ending ∧ ((skipLine turns).run state).2.depth = state.depth ∧
      ((skipLine turns).run state).2.budget = state.budget := by
  induction turns generalizing state with
  | zero => cases calm
  | succ _ ih =>
    unfold skipLine at calm ⊢
    rw [run_bind, run_current] at calm ⊢
    by_cases ended : state.current.kind = .newline
    · rw [ended]
      exact ⟨before.reads_ending ended, rfl, rfl⟩
    · have going : (state.current.kind != .newline && state.current.kind != .eof) = true := by
        simp [ended, before.not_eof]
      rw [if_pos going] at calm ⊢
      exact ih (before.of_current ended).advanced calm

theorem abandonBracket_resumes (ranks : state.Ranks source top rank) (moved : (state.stream.resync line).1) :
    (state.resumed line (state.stream.resync line).2).Resumes source line := by
  obtain ⟨_, _, ⟨stream, live, sound⟩, _⟩ := ranks
  rw [live] at moved ⊢
  rw [resync_moved moved]
  refine ⟨stream.lexer, sound, fun {tokens} yields => ?_⟩
  let after := state.resumed line (.live { lexer := stream.lexer.resumeAfter line })
  have reads : after.advanced.Reads tokens := .ofDelivers (TokenStream.live_delivers yields) rfl rfl rfl
  exact ⟨after.current, rfl, .more TokenKind.noConfusion reads⟩

theorem State.Ends.depth_eq {after last : State} {count : Nat} {found : Bool}
    (ends : state.Ends ending count found after) (grows : after.Grows last)
    (shallow : ∀ fault ∈ last.faults, fault.code ≠ .nestingTooDeep) : after.depth = state.depth := by
  rcases ends.depth with same | ⟨_, fault, recorded, deep⟩
  · exact same
  · exact absurd deep (shallow fault (grows.faults.subset recorded))

theorem givenUp_leaves (before : state.Before ending 0) (ranks : state.Ranks source top rank) (calm : ((do
      if !(← abandonBracket start) then skipLine (← get).budget
      return [] : Step (List Stmt)).run state).2.exhausted = false) :
    state.LeftLine source start.position.line ending ((do
      if !(← abandonBracket start) then skipLine (← get).budget
      return [] : Step (List Stmt)).run state).2 := by
  rw [run_bind, run_abandonBracket] at calm ⊢
  by_cases moved : (state.stream.resync start.position.line).1 = true
  · rw [if_pos moved]
    exact ⟨rfl, rfl, .inr (abandonBracket_resumes ranks moved)⟩
  · rw [if_neg moved] at calm ⊢
    obtain ⟨reads, depth, budget⟩ := skipLine_ends before calm
    exact ⟨depth, budget, .inl reads⟩

theorem closed_leaves (before : state.Before ending 1) (stmts : List Stmt) (calm : ((do
      if !(← tryExpect .newline) then skipLine (← get).budget
      return stmts : Step (List Stmt)).run state).2.exhausted = false) :
    state.LeftLine source line ending ((do
      if !(← tryExpect .newline) then skipLine (← get).budget
      return stmts : Step (List Stmt)).run state).2 := by
  rw [run_bind, run_tryExpect] at calm ⊢
  by_cases ended : (state.ahead.kind == .newline) = true
  · rw [if_pos ended]
    exact ⟨rfl, rfl, .inl (before.advanced.reads_ending (eq_of_beq ended))⟩
  · rw [if_neg ended] at calm ⊢
    have same := recordMissing_agrees .newline state
    have inside := (before.mono (Nat.zero_le _)).congr same.current same.ahead (congrArg _ same.stream)
    obtain ⟨reads, depth, budget⟩ := skipLine_ends inside calm
    exact ⟨depth.trans same.depth, budget.trans same.budget, .inl reads⟩

theorem simpleLine_leaves (before : state.Before ending 0)
    (fresh : state.statementFaults = 0) (ranks : state.Ranks source top rank)
    (calm : ((simpleLine start turns).run state).2.exhausted = false)
    (shallow : ∀ fault ∈ ((simpleLine start turns).run state).2.faults, fault.code ≠ .nestingTooDeep) :
    state.LeftLine source start.position.line ending ((simpleLine start turns).run state).2 := by
  induction turns generalizing state with
  | zero => cases calm
  | succ turns ih =>
    have stmt := simpleStmt_stays.ends before fresh
    have read : (simpleStmt.run.run state).2.Ranks source top rank := Settles.ranks ranks
    unfold simpleLine at calm shallow ⊢
    rw [run_bind] at calm shallow ⊢
    generalize simpleStmt.run.run state = result at stmt read calm shallow ⊢
    obtain ⟨found, middle⟩ := result
    cases found with
    | none =>
      have giving : Keeps (do
          if !(← abandonBracket start) then skipLine (← get).budget
          return [] : Step (List Stmt)) := inferInstance
      have depth := stmt.depth_eq (giving.grows middle) shallow
      have left := givenUp_leaves stmt.line read calm
      exact ⟨left.depth.trans depth, left.budget.trans stmt.budget, left.place⟩
    | some first =>
      have line : middle.Before ending 1 := stmt.line
      have depth : middle.depth = state.depth := stmt.depth.resolve_right fun refused => nomatch refused.1
      dsimp only at calm shallow ⊢
      rw [run_bind, run_aheadIs] at calm shallow ⊢
      split at calm <;> rename_i semicolon
      · rw [if_pos semicolon] at shallow ⊢
        have behind := (line.of_ahead (aheadIs_shows.inside middle semicolon)).advanced
        rw [run_bind, run_advance, run_bind, run_aheadIs] at calm shallow ⊢
        dsimp only at calm shallow ⊢
        split at calm <;> rename_i lineEnd
        · rw [if_pos lineEnd]
          exact ⟨depth, stmt.budget, .inl (behind.advanced.reads_ending (eq_of_beq lineEnd))⟩
        · rw [if_neg lineEnd] at shallow ⊢
          have further := behind.of_ahead fun ended => lineEnd (beq_iff_eq.mpr ended)
          have later := ih (further.advanced.mono (Nat.zero_le _)) (stmt.fresh rfl)
            (advance_settles.ranks (advance_settles.ranks read)) calm shallow
          exact ⟨later.depth.trans depth, later.budget.trans stmt.budget, later.place⟩
      · rw [if_neg semicolon]
        have left : middle.LeftLine source start.position.line ending _ := closed_leaves line [first] calm
        exact ⟨left.depth.trans depth, left.budget.trans stmt.budget, left.place⟩

/-- Whether the statement in front of the parser is given up while a bracket is open. -/
def State.givesUpInBrackets (state : State) : Bool :=
  (simpleStmt.run.run state).1.isNone &&
    ((simpleStmt.run.run state).2.stream.resync state.current.position.line).1

theorem simpleLine_resumes (turns : Nat) (ranks : state.Ranks source top rank)
    (gives : state.givesUpInBrackets) :
    ((simpleLine state.current (turns + 1)).run state).2.Resumes source
      state.current.position.line := by
  have read : (simpleStmt.run.run state).2.Ranks source top rank := Settles.ranks ranks
  obtain ⟨none, moved⟩ := Bool.and_eq_true_iff.mp gives
  unfold simpleLine
  rw [run_bind]
  generalize simpleStmt.run.run state = result at read none moved ⊢
  obtain ⟨found, middle⟩ := result
  obtain rfl : found = .none := Option.isNone_iff_eq_none.mp none
  rw [run_bind, run_abandonBracket, if_pos moved]
  exact abandonBracket_resumes read moved

section Modules

theorem run_statement (room : 0 < state.budget) :
    ∃ read, statement.run state = (statementWith read).run state := by
  obtain ⟨fuel, budget⟩ : ∃ fuel, state.budget = fuel + 1 := ⟨state.budget - 1, by omega⟩
  have within : statementWithin state.budget = statementWith (statementWithin fuel) := by
    rw [budget]
    rfl
  refine ⟨statementWithin fuel, ?_⟩
  rw [← within]
  rfl

theorem run_statement_of_name (name : state.current.kind = .ident) (room : 0 < state.budget) :
    statement.run state =
      (simpleLine state.current state.budget).run { state with statementFaults := 0 } := by
  obtain ⟨read, same⟩ := run_statement room
  rw [same]
  obtain ⟨stream, ⟨kind, lexeme, literal, position⟩, rest⟩ := state
  obtain rfl : kind = .ident := name
  rfl

theorem run_statement_of_dedent (dedent : state.current.kind = .dedent) (room : 0 < state.budget) :
    statement.run state = ([], { state with statementFaults := 0 }) := by
  obtain ⟨read, same⟩ := run_statement room
  rw [same]
  obtain ⟨stream, ⟨kind, lexeme, literal, position⟩, rest⟩ := state
  obtain rfl : kind = .dedent := dedent
  rfl

theorem run_moduleStmts (turns : Nat) (going : state.current.kind ≠ .eof) :
    (moduleStmts (turns + 1)).run state =
      ((statement.run state).1 ++ ((moduleStmts turns).run (statement.run state).2.advanced).1,
        ((moduleStmts turns).run (statement.run state).2.advanced).2) := by
  rw [moduleStmts, run_bind, run_currentIs]
  rw [if_neg (by simpa using going), run_bind, run_bind, run_advance]
  rfl

theorem moduleStmts_dedents {dedents : List Token}
    (kinds : ∀ token ∈ dedents, token.kind = .dedent) (nonempty : tokens ≠ [])
    (reads : state.Reads (dedents ++ tokens)) (room : 0 < state.budget) (turns : Nat) :
    ∃ after : State, (moduleStmts (turns + dedents.length)).run state = (moduleStmts turns).run after ∧
      after.Reads tokens ∧ after.depth = state.depth ∧ after.nextNode = state.nextNode ∧
      after.budget = state.budget ∧ after.faults = state.faults := by
  induction dedents generalizing state with
  | nil => exact ⟨state, rfl, reads, rfl, rfl, rfl, rfl⟩
  | cons dedent dedents ih =>
    have kind : state.current.kind = .dedent := by
      rw [reads.current]
      exact kinds dedent (mem_cons_self ..)
    have going : state.current.kind ≠ .eof := by
      rw [kind]
      exact TokenKind.noConfusion
    let next : State := { state with statementFaults := 0 }
    have later : next.advanced.Reads (dedents ++ tokens) :=
      (reads.advanced (by simp [nonempty])).congr
    obtain ⟨after, same, others⟩ := ih
      (fun token member => kinds token (mem_cons_of_mem dedent member)) later room
    refine ⟨after, ?_, others⟩
    rw [length_cons, ← Nat.add_assoc, run_moduleStmts _ going, run_statement_of_dedent kind room, ← same]
    rfl

end Modules

theorem exists_lineEnd {token : Token} (descends : Lexer.Descends source rank (token :: tokens))
    (ordinary : token.kind.isOrdinary) :
    ∃ line newline later, token :: tokens = line ++ newline :: later ∧ newline.kind = .newline ∧
      ∀ other ∈ line, other.kind ≠ .newline := by
  generalize shape : token :: tokens = all at descends
  induction descends generalizing token tokens with
  | last ended =>
    cases shape
    rw [ended] at ordinary
    cases ordinary
  | more going above follows falls rest ih =>
    obtain ⟨rfl, rfl⟩ := cons.inj shape
    have inside : token.kind ≠ .newline := ne_of_isOrdinary ordinary rfl
    cases tokens with
    | nil => cases rest
    | cons next later =>
      rcases follows ordinary next rfl with ordinary | newline
      · obtain ⟨line, newline, later, split, kind, others⟩ := ih ordinary rfl
        refine ⟨token :: line, newline, later, by rw [split, cons_append], kind, ?_⟩
        exact forall_mem_cons.mpr ⟨inside, others⟩
      · exact ⟨[token], next, later, rfl, newline, forall_mem_singleton.mpr inside⟩

/-- Whether the first line of a text is a logical line, which no bracket and no string continues. -/
def endsFirstLine (source : String) : Bool :=
  ((tokenize source).find? (·.kind == .newline)).any fun newline =>
    newline.lexeme == "\n" && newline.position.line == 1

theorem turnBound_room {length longer : Nat} (shorter : length + 2 ≤ longer) :
    turnBound length + 8 * longer + 1 ≤ turnBound longer := by
  have more : (16 * longer + 3) * (length + 3) ≤ (16 * longer + 3) * (longer + 1) :=
    Nat.mul_le_mul_left _ (by omega)
  have less : (16 * length + 3) * (length + 1) ≤ (16 * longer + 3) * (length + 1) :=
    Nat.mul_le_mul_right _ (by omega)
  have split : (16 * longer + 3) * (length + 3) =
      (16 * longer + 3) * (length + 1) + (16 * longer + 3) * 2 := by rw [← Nat.mul_add]
  simp only [turnBound]
  omega

/-- A line that starts with a name, and a text behind it that starts in its first column. -/
structure NamedLine (line rest : String) : Prop where
  single : '\n' ∉ line.toList
  letter : line.toList.head?.any Text.isLetter = true
  name : (tokenize (line ++ "\n" ++ rest)).head?.any (·.kind == .ident) = true
  flush : rest.toList.head?.any startsLine = true

/-- Behind the token in front of the parser only ends of blocks stand before the tokens of `rest`. -/
def State.BehindLine (line rest : String) (skip : Nat) (state : State) : Prop :=
  ∃ dedents : List Token, (∀ token ∈ dedents, token.kind = .dedent) ∧
    dedents.length ≤ 8 * (line ++ "\n" ++ rest).toList.length ∧
    state.advanced.Reads (dedents ++ (tokenize rest).map (move (.lower 1 skip)))

theorem exists_cons_of_head {α : Type} {list : List α} {accept : α → Bool}
    (accepted : list.head?.any accept) :
    ∃ first others, list = first :: others ∧ accept first = true := by
  cases list with
  | nil => cases accepted
  | cons first others => exact ⟨first, others, rfl, accepted⟩

namespace NamedLine

variable {line rest : String} (named : NamedLine line rest) (file : String)

/-- The parser in front of the line. -/
abbrev opening (file line rest : String) : State :=
  startText file (line ++ "\n" ++ rest) 0

theorem toList_source (line rest : String) :
    (line ++ "\n" ++ rest).toList = line.toList ++ '\n' :: rest.toList := by
  simp

theorem start_ranks (line rest : String) : ∃ top rank, (opening file line rest).Ranks
    (line.toList ++ '\n' :: rest.toList) top rank := by
  rw [← toList_source]
  exact ⟨_, _, startText_ranks file (line ++ "\n" ++ rest) 0⟩

include named

theorem start_current : (opening file line rest).current.kind = .ident ∧
    (opening file line rest).current.position = ⟨1, 1⟩ := by
  obtain ⟨c, text, shape, letter⟩ := exists_cons_of_head named.letter
  obtain ⟨token, tokens, split, kind⟩ := exists_cons_of_head named.name
  have reads := startText_reads file (line ++ "\n" ++ rest) 0
  have yields := tokenize_yields (line ++ "\n" ++ rest)
  have position : (ofText (line ++ "\n" ++ rest)).next.1.position = ⟨1, 1⟩ := by
    have whole : (line ++ "\n" ++ rest).toList = c :: (text ++ '\n' :: rest.toList) := by
      rw [toList_source, shape, cons_append]
    exact position_of_letter whole letter
  rw [split] at reads yields
  have first : token = (ofText (line ++ "\n" ++ rest)).next.1 := by
    cases yields <;> rfl
  rw [reads.current]
  exact ⟨eq_of_beq kind, first ▸ position⟩

theorem start_before : ∃ newline later, newline.kind = .newline ∧
    (tokenize (line ++ "\n" ++ rest)).find? (·.kind == .newline) = some newline ∧
    (∃ front, tokenize (line ++ "\n" ++ rest) = front ++ newline :: later ∧
      ∀ token ∈ front, token.kind ≠ .newline) ∧
    (opening file line rest).Before (newline :: later) 0 := by
  obtain ⟨token, tokens, split, kind⟩ := exists_cons_of_head named.name
  have reads := startText_reads file (line ++ "\n" ++ rest) 0
  have descends := tokenize_descends (line ++ "\n" ++ rest)
  rw [split] at descends
  have ordinary : token.kind.isOrdinary = true := by
    rw [eq_of_beq kind]
    rfl
  obtain ⟨front, newline, later, parts, lineEnd, others⟩ := exists_lineEnd descends ordinary
  rw [← split] at parts
  refine ⟨newline, later, lineEnd, ?_, ⟨front, parts, others⟩, ⟨newline, later, rfl, lineEnd⟩,
    front, parts ▸ reads, Nat.zero_le _, others⟩
  have none : front.find? (·.kind == .newline) = none :=
    find?_eq_none.mpr fun token member => by simpa using others token member
  rw [parts, find?_append, none, Option.none_or, find?_cons_of_pos (by simp [lineEnd])]

theorem given_up (gives : (opening file line rest).givesUpInBrackets) :
    (statement.run (opening file line rest)).2.Resumes (line.toList ++ '\n' :: rest.toList) 1 := by
  obtain ⟨name, position⟩ := named.start_current file
  obtain ⟨top, rank, ranks⟩ := start_ranks file line rest
  obtain ⟨turns, budget⟩ : ∃ turns, (opening file line rest).budget = turns + 1 :=
    ⟨_, (Nat.succ_pred_eq_of_pos (Nat.lt_of_le_of_lt (Nat.zero_le _) ranks.lt_budget)).symm⟩
  have resumes := simpleLine_resumes turns ranks gives
  rw [position, ← budget] at resumes
  rw [run_statement_of_name name (budget ▸ Nat.succ_pos turns)]
  exact resumes

theorem behind_resumed {state : State} (skip : Nat)
    (resumes : state.Resumes (line.toList ++ '\n' :: rest.toList) 1) :
    state.BehindLine line rest skip := by
  obtain ⟨c, text, shape, letter⟩ := exists_cons_of_head named.letter
  obtain ⟨d, more, next, flush⟩ := exists_cons_of_head named.flush
  obtain ⟨lexer, sound, follows⟩ := resumes
  obtain ⟨dedents, kinds, few, yields⟩ := resumed_yields sound named.single shape
    (startsLine_of_isLetter letter) next flush (tokenize_yields rest) skip
  obtain ⟨newline, _, reads⟩ := follows yields
  refine ⟨dedents, kinds, ?_, reads.advanced yields.ne_nil⟩
  rw [toList_source]
  exact few

theorem behind_lineEnd {state : State} (skip : Nat) {front : List Token}
    (split : tokenize (line ++ "\n" ++ rest) = front ++ newline :: later)
    (others : ∀ token ∈ front, token.kind ≠ .newline) (kind : newline.kind = .newline)
    (written : newline.lexeme = "\n") (first : newline.position.line = 1)
    (reads : state.Reads (newline :: later)) :
    state.BehindLine line rest skip := by
  obtain ⟨c, text, shape, letter⟩ := exists_cons_of_head named.letter
  have whole : (line ++ "\n" ++ rest).toList = c :: (text ++ '\n' :: rest.toList) := by
    rw [toList_source, shape, cons_append]
  have inside := inFirstLine_ofText (startsLine_of_isLetter letter) whole
  rw [toList_source] at inside
  obtain ⟨after, yields, beside⟩ := (tokenize_yields (line ++ "\n" ++ rest)).behindFirstLine
    inside named.single split others kind written first
  have lower := (tokenize_yields rest).beside skip beside
  obtain rfl := yields.unique lower
  exact ⟨[], nofun, Nat.zero_le _, reads.advanced yields.ne_nil⟩

theorem length_rest : rest.length + 2 ≤ (line ++ "\n" ++ rest).length := by
  obtain ⟨c, text, shape, _⟩ := exists_cons_of_head named.letter
  rw [← String.length_toList, ← String.length_toList, toList_source, shape]
  simp only [length_append, length_cons]
  omega

variable {file} (shallow : ∀ fault ∈ (statement.run (opening file line rest)).2.faults,
    fault.code ≠ .nestingTooDeep)
include shallow

theorem leaves (before : (opening file line rest).Before (newline :: later) 0) :
    (opening file line rest).LeftLine (line.toList ++ '\n' :: rest.toList) 1
      (newline :: later) (statement.run (opening file line rest)).2 := by
  obtain ⟨name, position⟩ := named.start_current file
  obtain ⟨top, rank, ranks⟩ := start_ranks file line rest
  have going : (opening file line rest).current.kind ≠ .eof := before.not_eof
  have calm := (statement_readsAt ranks going).calm
  have room : 0 < (opening file line rest).budget := Nat.lt_of_le_of_lt (Nat.zero_le _) ranks.lt_budget
  generalize opening file line rest = start at *
  rw [run_statement_of_name name room] at calm shallow ⊢
  have line1 : start.current.position.line = 1 := by rw [position]
  rw [← line1]
  let fresh : State := { start with statementFaults := 0 }
  have fresh_before : fresh.Before (newline :: later) 0 := before.congr
  have fresh_ranks : fresh.Ranks (line.toList ++ '\n' :: rest.toList) top rank :=
    resetFaults_settles.ranks ranks
  have left := simpleLine_leaves fresh_before rfl fresh_ranks calm shallow
  exact ⟨left.depth, left.budget, left.place⟩

variable (recovers : endsFirstLine (line ++ "\n" ++ rest) = true ∨
  (opening file line rest).givesUpInBrackets = true)
include recovers

theorem behind_first (skip : Nat) : (statement.run (opening file line rest)).2.BehindLine line rest skip := by
  rcases recovers with ends | gives
  · obtain ⟨newline, later, kind, found, ⟨front, split, others⟩, before⟩ := named.start_before file
    rw [endsFirstLine, found, Option.any_some, Bool.and_eq_true_iff] at ends
    rcases (named.leaves shallow before).place with reads | resumes
    · exact named.behind_lineEnd skip split others kind (eq_of_beq ends.1) (eq_of_beq ends.2) reads
    · exact named.behind_resumed skip resumes
  · exact named.behind_resumed skip (named.given_up file gives)

theorem goes_on (clean : (parseModule file rest).faults = [])
    (room : turnBound rest.length + 8 * (line ++ "\n" ++ rest).length ≤ turns) :
    let first := statement.run (opening file line rest)
    ((moduleStmts turns).run first.2.advanced).1 =
        move (.lower 1 first.2.nextNode) (parseModule file rest).tree.body ∧
      ((moduleStmts turns).run first.2.advanced).2.faults = first.2.faults := by
  intro first
  obtain ⟨_, _, _, _, _, before⟩ := named.start_before file
  have left := named.leaves shallow before
  obtain ⟨dedents, kinds, few, reads⟩ := named.behind_first shallow recovers first.2.nextNode
  rw [String.length_toList] at few
  have nonempty : (tokenize rest).map (move (Relocation.lower 1 first.2.nextNode)) ≠ [] :=
    mt map_eq_nil_iff.mp (tokenize_yields rest).ne_nil
  have budget : first.2.advanced.budget = turnBound (line ++ "\n" ++ rest).length := left.budget
  have larger := turnBound_room named.length_rest
  have positive : 0 < first.2.advanced.budget := by
    omega
  have most : turnBound rest.length ≤ first.2.advanced.budget := by
    rw [budget]
    omega
  obtain ⟨more, rfl⟩ : ∃ more, turns = turnBound rest.length + more + dedents.length :=
    ⟨turns - turnBound rest.length - dedents.length, by omega⟩
  obtain ⟨after, same, at_rest, depth, nextNode, spare, faults⟩ :=
    moduleStmts_dedents kinds nonempty reads positive (turnBound rest.length + more)
  have alike : (startText file rest 0).Alike (.lower 1 first.2.nextNode) first.2.faults after :=
    { tokens := ⟨_, startText_reads file rest 0, at_rest⟩
      depth := depth.trans left.depth
      nextNode := nextNode.trans (Nat.zero_add _).symm
      budget := ⟨_, spare.trans (Nat.add_sub_of_le most).symm⟩
      fresh := rfl
      faults := faults }
  have calm := (moduleStmts_ranks (startText_ranks file rest 0) (startRank_lt_turnBound rest)).1.calm
  have ends := (moduleStmts_parallel (turnBound rest.length) more).follows alike
    ⟨reverse_eq_nil_iff.mp clean, calm⟩
  rw [same]
  exact ⟨ends.1, ends.2.faults⟩

end NamedLine

/-- A text whose first line is broken and whose remaining lines are not. Where the broken line is a
logical line, or its first statement is given up inside a bracket, nothing behind it is lost: the tree
holds what was made of the line, and then the tree of the remaining lines. -/
theorem broken_line_keeps_rest {line rest : String} (file : String) (named : NamedLine line rest)
    (clean : (parseModule file rest).faults = [])
    (recovers : endsFirstLine (line ++ "\n" ++ rest) = true ∨
      (startText file (line ++ "\n" ++ rest) 0).givesUpInBrackets = true)
    (shallow : ∀ fault ∈ (parseModule file (line ++ "\n" ++ rest)).faults,
      fault.code ≠ .nestingTooDeep) :
    let first := statement.run (startText file (line ++ "\n" ++ rest) 0)
    (parseModule file (line ++ "\n" ++ rest)).tree.body =
        first.1 ++ move (.lower 1 first.2.nextNode) (parseModule file rest).tree.body ∧
      (parseModule file (line ++ "\n" ++ rest)).faults = first.2.faults.reverse := by
  intro first
  have larger := turnBound_room named.length_rest
  obtain ⟨turns, enough⟩ : ∃ turns, turnBound (line ++ "\n" ++ rest).length = turns + 1 :=
    ⟨turnBound (line ++ "\n" ++ rest).length - 1, by omega⟩
  have going : (startText file (line ++ "\n" ++ rest) 0).current.kind ≠ .eof := by
    rw [(named.start_current file).1]
    exact TokenKind.noConfusion
  have run : (moduleStmts (turnBound (line ++ "\n" ++ rest).length)).run
      (startText file (line ++ "\n" ++ rest) 0) =
        (first.1 ++ ((moduleStmts turns).run first.2.advanced).1,
          ((moduleStmts turns).run first.2.advanced).2) := by
    rw [enough]
    exact run_moduleStmts turns going
  have body : (parseModule file (line ++ "\n" ++ rest)).tree.body =
      first.1 ++ ((moduleStmts turns).run first.2.advanced).1 := congrArg Prod.fst run
  have faults : (parseModule file (line ++ "\n" ++ rest)).faults =
      ((moduleStmts turns).run first.2.advanced).2.faults.reverse :=
    congrArg (fun result => result.2.faults.reverse) run
  -- The faults of the first line are still there at the end, so none of them is about nesting.
  have kept : ∀ fault ∈ first.2.faults, fault.code ≠ .nestingTooDeep := by
    intro fault recorded
    refine shallow fault ?_
    rw [faults, mem_reverse]
    have grows := (moduleStmts_parallel turns 0 : Parallel (.lower 1 0) _ _).grows first.2.advanced
    exact grows.faults.subset recorded
  obtain ⟨later, same⟩ := named.goes_on kept recovers clean (by omega : _ ≤ turns)
  rw [body, faults, later, same]
  exact ⟨rfl, rfl⟩

theorem broken_line_keeps_rest_in_call :
    NamedLine "f(x y" "z = 1\n" ∧ (parseModule "" "z = 1\n").faults = [] ∧
      (parseModule "" "f(x y\nz = 1\n").faults.map (·.code) = [.unexpectedToken] ∧
      let first := statement.run (startText "" "f(x y\nz = 1\n" 0)
      (parseModule "" "f(x y\nz = 1\n").tree.body =
        first.1 ++ move (.lower 1 first.2.nextNode) (parseModule "" "z = 1\n").tree.body := by
  have named : NamedLine "f(x y" "z = 1\n" :=
    ⟨by decide +kernel, by decide +kernel, by decide +kernel, by decide +kernel⟩
  have clean : (parseModule "" "z = 1\n").faults = [] := by decide +kernel
  refine ⟨named, clean, by decide +kernel, ?_⟩
  exact (broken_line_keeps_rest "" named clean (.inr (by decide +kernel)) (by decide +kernel)).1

/-- A bracket that opens behind the statement, in the part of the line that is skipped, makes the parser
skip the lines after it too. -/
theorem open_bracket_swallows_rest :
    (parseModule "" "z = 1\n").faults = [] ∧
      ∀ before skip, (parseModule "" "x y (\nz = 1\n").tree.body ≠
        before ++ move (.lower 1 skip) (parseModule "" "z = 1\n").tree.body := by
  refine ⟨by decide +kernel, fun before skip same => ?_⟩
  have lines : (parseModule "" "x y (\nz = 1\n").tree.body.map (·.position.line) = [1] := by
    decide +kernel
  have alone : (parseModule "" "z = 1\n").tree.body.map (·.position.line + 1) = [2] := by
    decide +kernel
  have lower : (move (.lower 1 skip) (parseModule "" "z = 1\n").tree.body).map (·.position.line) =
      [2] := by
    rw [← alone]
    refine map_map.trans (map_congr_left fun stmt _ => ?_)
    exact congrArg Position.line (Stmt.position_move (.lower 1 skip) stmt)
  rw [same, map_append, lower, append_eq_singleton_iff] at lines
  simp at lines

end Stubwise.Parser
