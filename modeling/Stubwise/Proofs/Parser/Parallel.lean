import Stubwise.Proofs.Parser.Moved
import Stubwise.Proofs.Parser.Supply

namespace Stubwise.Parser

open List

open Movable (move)

set_option synthInstance.maxSize 4000

namespace State

variable {r : Relocation} {before : List Diagnostic} {state other : State}

/-- No fault was recorded and no loop ran out of turns. -/
def Clean (state : State) : Prop :=
  state.faults = [] ∧ state.exhausted = false

structure Grows (state after : State) : Prop where
  faults : state.faults <:+ after.faults
  spent : state.exhausted = true → after.exhausted = true

namespace Grows

theorem refl (state : State) : state.Grows state := ⟨suffix_rfl, id⟩

theorem trans {third : State} (first : state.Grows other) (second : other.Grows third) :
    state.Grows third :=
  ⟨first.faults.trans second.faults, second.spent ∘ first.spent⟩

theorem clean (grows : state.Grows other) (clean : other.Clean) : state.Clean := by
  obtain ⟨faults, calm⟩ := clean
  refine ⟨suffix_nil.mp (faults ▸ grows.faults), ?_⟩
  cases spent : state.exhausted with
  | false => rfl
  | true => exact (grows.spent spent).symm.trans calm

end Grows

/-- The second state has the tokens of the first one to read, at other places, and the faults that it
had before. -/
structure Alike (r : Relocation) (before : List Diagnostic) (state other : State) : Prop where
  tokens : ∃ tokens, state.Reads tokens ∧ other.Reads (tokens.map (move r))
  depth : other.depth = state.depth
  nextNode : other.nextNode = state.nextNode + r.skip
  budget : ∃ more, other.budget = state.budget + more
  fresh : state.statementFaults = 0
  faults : other.faults = before

theorem Reads.last_token {token : Token} (reads : state.Reads [token]) :
    token.kind = .eof ∧ state.ahead = token := by
  cases reads with
  | last ended ahead => exact ⟨ended, ahead⟩
  | more _ rest => exact absurd rfl rest.ne_nil

namespace Alike

theorem current (alike : state.Alike r before other) : other.current = move r state.current := by
  obtain ⟨tokens, reads, moved⟩ := alike.tokens
  cases tokens with
  | nil => exact absurd rfl reads.ne_nil
  | cons => rw [moved.current, reads.current]

theorem ahead (alike : state.Alike r before other) : other.ahead = move r state.ahead := by
  obtain ⟨tokens, reads, moved⟩ := alike.tokens
  match tokens with
  | [] => exact absurd rfl reads.ne_nil
  | [_] => rw [moved.last_token.2, reads.last_token.2]
  | _ :: _ :: _ => rw [moved.ahead, reads.ahead]

theorem advanced (alike : state.Alike r before other) : state.advanced.Alike r before other.advanced where
  tokens := by
    obtain ⟨tokens, reads, moved⟩ := alike.tokens
    match tokens with
    | [] => exact absurd rfl reads.ne_nil
    | [token] =>
      have ended : state.current.kind = .eof := reads.current ▸ reads.last_token.1
      have ended' : other.current.kind = .eof := moved.current ▸ moved.last_token.1
      exact ⟨[token], reads.advanced_of_eof ended, moved.advanced_of_eof ended'⟩
    | _ :: next :: rest =>
      exact ⟨next :: rest, reads.advanced (cons_ne_nil _ _), moved.advanced (cons_ne_nil _ _)⟩
  depth := alike.depth
  nextNode := alike.nextNode
  budget := alike.budget
  fresh := alike.fresh
  faults := alike.faults

theorem withDepth (alike : state.Alike r before other) (change : Nat → Nat) :
    ({ state with depth := change state.depth } : State).Alike r before
      { other with depth := change other.depth } := by
  obtain ⟨tokens, reads, moved⟩ := alike.tokens
  exact ⟨⟨tokens, reads.congr, moved.congr⟩, congrArg change alike.depth,
    alike.nextNode, alike.budget, alike.fresh, alike.faults⟩

end Alike

end State

/-- From two states that are alike, where the first run stays clean, both runs give the same value at
their own places and end in states that are alike. -/
class Parallel (r : Relocation) {α : Type} [Movable α] (step other : Step α) : Prop where
  grows : ∀ state : State, state.Grows (step.run state).2
  follows : ∀ {before : List Diagnostic} {state another : State}, state.Alike r before another →
    (step.run state).2.Clean → (other.run another).1 = move r (step.run state).1 ∧
      (step.run state).2.Alike r before (other.run another).2

section Steps

variable {r : Relocation} {α β : Type} [Movable α] [Movable β]

instance {value value' : α} [moved : IsMoved r value value'] :
    Parallel r (pure value : Step α) (pure value') where
  grows _ := ⟨suffix_rfl, id⟩
  follows alike _ := ⟨moved.eq, alike⟩

instance {step other : Step α} {next next' : α → Step β} [first : Parallel r step other]
    [second : ∀ value, Parallel r (next value) (next' (move r value))] :
    Parallel r (step >>= next) (other >>= next') where
  grows _ := (first.grows _).trans ((second _).grows _)
  follows alike clean := by
    obtain ⟨value, alike⟩ := first.follows alike (((second _).grows _).clean clean)
    rw [run_bind, run_bind, value]
    exact (second _).follows alike clean

theorem parallel_after {step other : Step α} {next next' : α → Step β} [Parallel r step other]
    (later : ∀ value, Parallel r (next value) (next' (move r value))) :
    Parallel r (step >>= next) (other >>= next') :=
  inferInstance

instance {condition : Prop} [Decidable condition] {yes no yes' no' : Step α}
    [first : Parallel r yes yes'] [second : Parallel r no no'] :
    Parallel r (if condition then yes else no) (if condition then yes' else no') := by
  split
  · exact first
  · exact second

instance : Parallel r advance advance where
  grows _ := ⟨suffix_rfl, id⟩
  follows alike _ := ⟨rfl, alike.advanced⟩

instance : Parallel r current current where
  grows _ := ⟨suffix_rfl, id⟩
  follows alike _ := ⟨alike.current, alike⟩

instance : Parallel r ahead ahead where
  grows _ := ⟨suffix_rfl, id⟩
  follows alike _ := ⟨alike.ahead, alike⟩

instance (kind : TokenKind) : Parallel r (currentIs kind) (currentIs kind) :=
  inferInstanceAs (Parallel r (current >>= fun token => pure (token.kind == kind))
    (current >>= fun token => pure (token.kind == kind)))

instance (kind : TokenKind) : Parallel r (aheadIs kind) (aheadIs kind) :=
  inferInstanceAs (Parallel r (ahead >>= fun token => pure (token.kind == kind))
    (ahead >>= fun token => pure (token.kind == kind)))

instance : Parallel r kindAfterAhead kindAfterAhead where
  grows _ := ⟨suffix_rfl, id⟩
  follows {_ state another} alike _ := by
    rw [run_kindAfterAhead, run_kindAfterAhead]
    obtain ⟨tokens, reads, moved⟩ := alike.tokens
    have next : another.stream.next.1 = move r state.stream.next.1 := alike.advanced.ahead
    refine ⟨by rw [next]; rfl, ⟨tokens, ?_, ?_⟩, alike.depth, alike.nextNode, alike.budget,
      alike.fresh, alike.faults⟩
    · exact reads.congr rfl rfl (TokenStream.next_peek _)
    · exact moved.congr rfl rfl (TokenStream.next_peek _)

instance {token token' : Token} [moved : IsMoved r token token'] : Parallel r (mark token) (mark token') where
  grows _ := ⟨suffix_rfl, id⟩
  follows := by
    rintro before state another ⟨⟨tokens, reads, others⟩, depth, nextNode, budget, fresh, faults⟩ _
    refine ⟨?_, ⟨tokens, reads.congr, others.congr⟩, depth, ?_, budget, fresh, faults⟩
    · show (⟨token', another.nextNode⟩ : Mark) = move r ⟨token, state.nextNode⟩
      rw [moved.eq, nextNode]
      rfl
    · show another.nextNode + 1 = state.nextNode + 1 + r.skip
      rw [nextNode, Nat.add_right_comm]

instance : Parallel r markCurrent markCurrent :=
  inferInstanceAs (Parallel r (current >>= mark) (current >>= mark))

instance (priority := high) {step other : Nat → Step α}
    [enough : ∀ count more, Parallel r (step count) (other (count + more))] :
    Parallel r (turns >>= step) (turns >>= other) where
  grows _ := (enough _ 0).grows _
  follows {_ state _} alike clean := by
    obtain ⟨more, budget⟩ := alike.budget
    rw [run_bind, run_bind, run_turns, run_turns, budget]
    exact (enough state.budget more).follows alike clean

end Steps

/-- A step that always records a fault. -/
class Faulty {α : Type} (step : Step α) : Prop where
  grows : ∀ state : State, state.Grows (step.run state).2
  faulty : ∀ {state : State}, state.statementFaults = 0 → ¬ (step.run state).2.Clean

section Faults

variable {r : Relocation} {α β : Type} [Movable α]

/-- Beside a fault the other run does not count. -/
instance (priority := low) {step other : Step α} [wrong : Faulty step] : Parallel r step other where
  grows := wrong.grows
  follows alike clean := absurd clean (wrong.faulty alike.fresh)

instance record_faulty (code : Code) (token : Token) (message : String) :
    Faulty (record code token message) where
  grows state := by
    refine ⟨?_, id⟩
    show state.faults <:+ if state.statementFaults == 0 then _ :: state.faults else state.faults
    split
    · exact suffix_cons _ _
    · exact suffix_rfl
  faulty := by
    rintro state fresh ⟨faults, _⟩
    have recorded : (if state.statementFaults == 0 then _ :: state.faults else state.faults) = [] :=
      faults
    rw [fresh] at recorded
    cases recorded

instance (token : Token) : Faulty (recordIllegal token) := record_faulty _ _ _

instance recordUnexpected_faulty (token : Token) : Faulty (recordUnexpected token) := by
  unfold recordUnexpected
  split <;> infer_instance

instance recordMissing_faulty (kind : TokenKind) : Faulty (recordMissing kind) := by
  have at_token (token : Token) : Faulty (if token.kind == .illegal then recordIllegal token
      else record .unexpectedToken token
        ("expected " ++ Text.quote kind.text ++ ", got " ++ describe token)) := by
    split <;> infer_instance
  exact ⟨fun state => (at_token state.ahead).grows state, fun {state} => (at_token state.ahead).faulty⟩

end Faults

/-- As `Parallel`, for steps that may give up: a run that stays clean does not. -/
class ParallelParse (r : Relocation) {α : Type} [Movable α] (parse other : Parse α) : Prop where
  grows : ∀ state : State, state.Grows (parse.run.run state).2
  follows : ∀ {before : List Diagnostic} {state another : State}, state.Alike r before another →
    (parse.run.run state).2.Clean → ∃ value, (parse.run.run state).1 = some value ∧
      (other.run.run another).1 = some (move r value) ∧
      (parse.run.run state).2.Alike r before (other.run.run another).2

section Parses

theorem run_parse_bind {α β : Type} (parse : Parse α) (next : α → Parse β) (state : State) :
    (parse >>= next).run.run state = ((parse.run.run state).1.elim (pure none) fun value =>
      (next value).run).run (parse.run.run state).2 := by
  rw [OptionT.run_bind]
  rfl

variable {r : Relocation} {α β : Type} [Movable α] [Movable β]

instance (priority := low) faulty_parse {parse other : Parse α} [wrong : Faulty parse.run] :
    ParallelParse r parse other where
  grows := wrong.grows
  follows alike clean := absurd clean (wrong.faulty alike.fresh)

instance {value value' : α} [moved : IsMoved r value value'] :
    ParallelParse r (pure value) (pure value') where
  grows _ := ⟨suffix_rfl, id⟩
  follows alike _ := ⟨value, rfl, congrArg some moved.eq, alike⟩

instance {step other : Step α} [inner : Parallel r step other] :
    ParallelParse r (liftM step) (liftM other) where
  grows := inner.grows
  follows alike clean :=
    have ⟨value, alike⟩ := inner.follows alike clean
    ⟨_, rfl, congrArg some value, alike⟩

instance {parse other : Parse α} {next next' : α → Parse β} [first : ParallelParse r parse other]
    [second : ∀ value, ParallelParse r (next value) (next' (move r value))] :
    ParallelParse r (parse >>= next) (other >>= next') where
  grows state := by
    rw [run_parse_bind]
    refine (first.grows state).trans ?_
    cases (parse.run.run state).1 with
    | none => exact ⟨suffix_rfl, id⟩
    | some value => exact (second value).grows _
  follows {_ state _} alike clean := by
    rw [run_parse_bind] at clean
    rw [run_parse_bind, run_parse_bind]
    cases result : (parse.run.run state).1 with
    | none =>
      rw [result] at clean
      obtain ⟨value, found, _⟩ := first.follows alike clean
      cases found.symm.trans result
    | some value =>
      rw [result] at clean
      obtain ⟨again, found, other, alike⟩ := first.follows alike (((second value).grows _).clean clean)
      cases found.symm.trans result
      rw [other]
      exact (second value).follows alike clean

theorem parse_after {parse other : Parse α} {next next' : α → Parse β} [ParallelParse r parse other]
    (later : ∀ value, ParallelParse r (next value) (next' (move r value))) :
    ParallelParse r (parse >>= next) (other >>= next') :=
  inferInstance

instance {parse other : Parse α} {change change' : α → β} [ParallelParse r parse other]
    [∀ value, IsMoved r (change value) (change' (move r value))] :
    ParallelParse r (change <$> parse) (change' <$> other) := by
  rw [map_eq_pure_bind, map_eq_pure_bind]
  infer_instance

instance {condition : Prop} [Decidable condition] {yes no yes' no' : Parse α}
    [first : ParallelParse r yes yes'] [second : ParallelParse r no no'] :
    ParallelParse r (if condition then yes else no) (if condition then yes' else no') := by
  split
  · exact first
  · exact second

instance (priority := low) {test test' : Bool} {yes no yes' no' : Parse α}
    [same : IsMoved r test test'] [ParallelParse r yes yes'] [ParallelParse r no no'] :
    ParallelParse r (if test then yes else no) (if test' then yes' else no') := by
  rw [show test' = test from same.eq]
  infer_instance

instance (priority := high) parse_turns {parse other : Nat → Parse α}
    [enough : ∀ count more, ParallelParse r (parse count) (other (count + more))] :
    ParallelParse r (liftM turns >>= parse) (liftM turns >>= other) where
  grows _ := (enough _ 0).grows _
  follows {_ state _} alike clean := by
    obtain ⟨more, budget⟩ := alike.budget
    have moved := (enough state.budget more).follows alike clean
    rw [← budget] at moved
    exact moved

instance (code : Code) (token : Token) (message : String) :
    Faulty (reject code token message : Parse α).run :=
  ⟨(record_faulty code token message).grows, (record_faulty code token message).faulty⟩

instance (token : Token) : Faulty (unexpected token : Parse α).run :=
  ⟨(recordUnexpected_faulty token).grows, (recordUnexpected_faulty token).faulty⟩

instance (kind : TokenKind) : Faulty (do recordMissing kind; failure : Parse α).run :=
  ⟨(recordMissing_faulty kind).grows, (recordMissing_faulty kind).faulty⟩

instance {next : Token → Parse α} [wrong : ∀ token, Faulty (next token).run] :
    Faulty (liftM ahead >>= next).run :=
  ⟨fun state => (wrong state.ahead).grows state, fun {state} => (wrong state.ahead).faulty⟩

instance : Faulty (outOfTurns : Parse α).run where
  grows _ := ⟨suffix_rfl, fun _ => rfl⟩
  faulty _ clean := nomatch clean.2

instance (kind : TokenKind) : ParallelParse r (expect kind) (expect kind) where
  grows state := by
    rw [run_expect]
    split
    · exact ⟨suffix_rfl, id⟩
    · exact (recordMissing_faulty kind).grows state
  follows {_ state another} alike clean := by
    have same : another.ahead.kind = state.ahead.kind := by
      rw [alike.ahead]
      rfl
    rw [run_expect] at clean
    rw [run_expect, run_expect, same]
    by_cases hit : state.ahead.kind == kind
    · rw [if_pos hit, if_pos hit]
      exact ⟨(), rfl, rfl, alike.advanced⟩
    · rw [if_neg hit] at clean
      exact absurd clean ((recordMissing_faulty kind).faulty alike.fresh)

section Loops

variable {test : Step Bool} [Parallel r test test] {item item' : Parse α} [ParallelParse r item item']
  (turns more : Nat)

instance {stops : TokenKind → Bool} : ParallelParse r (itemsAfterCommas stops item turns)
      (itemsAfterCommas stops item' (turns + more)) := by
  induction turns <;> (try rw [Nat.add_right_comm]) <;> unfold itemsAfterCommas <;> infer_instance

instance : ParallelParse r (itemsWhile test item turns) (itemsWhile test item' (turns + more)) := by
  induction turns <;> (try rw [Nat.add_right_comm]) <;> unfold itemsWhile <;> infer_instance

instance : ParallelParse r (itemsBetween test item turns) (itemsBetween test item' (turns + more)) := by
  induction turns <;> (try rw [Nat.add_right_comm]) <;> unfold itemsBetween <;> infer_instance

instance {add : α → Token → α} {soFar soFar' : α} [moved : IsMoved r soFar soFar']
    [∀ a token, IsMoved r (add a token) (add (move r a) (move r token))] :
    ParallelParse r (tokensWhile test add turns soFar) (tokensWhile test add (turns + more) soFar') := by
  induction turns generalizing soFar soFar' <;> (try rw [Nat.add_right_comm]) <;> rw [moved.eq] <;>
    unfold tokensWhile <;> infer_instance

end Loops

end Parses

end Stubwise.Parser
