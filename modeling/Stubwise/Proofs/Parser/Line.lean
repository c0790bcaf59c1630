import Stubwise.Proofs.Parser.Expression

namespace Stubwise.Parser

open List

variable {kind other : TokenKind}

namespace State

variable {state after third : State} {count less : Nat} {ending : List Token}

/-- At least `count` tokens are left in front of the line end that `ending` starts with. -/
def Before (ending : List Token) (count : Nat) (state : State) : Prop :=
  (∃ newline rest, ending = newline :: rest ∧ newline.kind = .newline) ∧
    ∃ line, state.Reads (line ++ ending) ∧ count ≤ line.length ∧ ∀ token ∈ line, token.kind ≠ .newline

namespace Before

theorem mono (before : state.Before ending count) (fewer : less ≤ count) :
    state.Before ending less := by
  obtain ⟨ends, line, reads, enough, inside⟩ := before
  exact ⟨ends, line, reads, Nat.le_trans fewer enough, inside⟩

theorem congr (before : state.Before ending count) (current : after.current = state.current := by rfl)
    (ahead : after.ahead = state.ahead := by rfl)
    (stream : after.stream.next = state.stream.next := by rfl) :
    after.Before ending count := by
  obtain ⟨ends, line, reads, enough, inside⟩ := before
  exact ⟨ends, line, reads.congr current ahead stream, enough, inside⟩

theorem advanced (before : state.Before ending (count + 1)) : state.advanced.Before ending count := by
  obtain ⟨ends, line, reads, enough, inside⟩ := before
  cases line with
  | nil => cases enough
  | cons token line =>
    have more : line ++ ending ≠ [] := by
      obtain ⟨newline, rest, rfl, _⟩ := ends
      simp
    exact ⟨ends, line, reads.advanced more, Nat.le_of_succ_le_succ enough,
      fun other member => inside other (mem_cons_of_mem token member)⟩

theorem of_current (before : state.Before ending 0) (inside : state.current.kind ≠ .newline) :
    state.Before ending 1 := by
  obtain ⟨ends, line, reads, _, others⟩ := before
  cases line with
  | nil =>
    obtain ⟨newline, rest, rfl, kind⟩ := ends
    rw [reads.current] at inside
    exact absurd kind inside
  | cons => exact ⟨ends, _, reads, Nat.succ_le_succ (Nat.zero_le _), others⟩

theorem current (before : state.Before ending 1) : Inner state.current.kind := by
  obtain ⟨⟨newline, rest, rfl, _⟩, line, reads, enough, others⟩ := before
  cases line with
  | nil => cases enough
  | cons token line =>
    generalize behind : line ++ newline :: rest = tokens at reads
    rw [cons_append, behind] at reads
    refine ⟨?_, ?_⟩
    · rw [reads.current]
      exact others token (mem_cons_self ..)
    · cases reads with
      | last => simp at behind
      | more going => exact going

theorem of_ahead (before : state.Before ending 1) (inside : state.ahead.kind ≠ .newline) :
    state.Before ending 2 := by
  obtain ⟨ends, line, reads, enough, others⟩ := before
  match line, enough with
  | [token], _ =>
    obtain ⟨newline, rest, rfl, kind⟩ := ends
    rw [reads.ahead] at inside
    exact absurd kind inside
  | first :: second :: line, _ =>
    exact ⟨ends, _, reads, Nat.succ_le_succ (Nat.succ_le_succ (Nat.zero_le _)), others⟩

end Before

/-- How a step ends that was in front of a line end: with `count` tokens left, or, where it gave up,
anywhere in the line. -/
structure Ends (ending : List Token) (count : Nat) (found : Bool) (state after : State) : Prop where
  line : after.Before ending (if found then count else 0)
  budget : after.budget = state.budget
  depth : after.depth = state.depth ∨ found = false ∧ ∃ fault ∈ after.faults, fault.code = .nestingTooDeep
  fresh : found = true → after.statementFaults = 0

theorem Ends.trans {middle : Nat} {found : Bool} (first : Ends ending middle true state after)
    (second : Ends ending count found after third) : Ends ending count found state third where
  line := second.line
  budget := second.budget.trans first.budget
  depth := by
    rcases first.depth with same | ⟨refused, _⟩
    · rw [← same]
      exact second.depth
    · cases refused
  fresh := second.fresh

end State

/-- Needs `most` tokens in front of the line end and leaves `least`. -/
class Walks (most : Nat) (least : outParam Nat) {α : Type} (step : Step α) : Prop where
  ends : ∀ {ending : List Token} {state : State}, state.Before ending most →
    state.statementFaults = 0 → state.Ends ending least true (step.run state).2

/-- As `Walks`, for steps that may give up. -/
class Moves (most : Nat) (least : outParam Nat) {α : Type} (parse : Parse α) : Prop where
  ends : ∀ {ending : List Token} {state : State}, state.Before ending most →
    state.statementFaults = 0 →
      state.Ends ending least (parse.run.run state).1.isSome (parse.run.run state).2

/-- Needs `most` tokens in front of the line end; its own last token is left. -/
class Stays (most : Nat) {α : Type} (parse : Parse α) : Prop where
  ends : ∀ {ending : List Token} {state : State}, state.Before ending most →
    state.statementFaults = 0 → state.Ends ending 1 (parse.run.run state).1.isSome (parse.run.run state).2

section Steps

variable {α β : Type} {most middle least : Nat} {step : Step α}

theorem Looks.walks (looks : Looks step) : Walks most most step where
  ends {_ state} before fresh := by
    obtain ⟨_, same⟩ := looks.same state
    rw [same]
    exact ⟨before.congr, rfl, .inl rfl, fun _ => fresh⟩

instance [looks : Looks step] : Walks most most step := looks.walks

instance {next : α → Step β} [first : Walks most middle step]
    [second : ∀ value, Walks middle least (next value)] : Walks most least (step >>= next) where
  ends before fresh :=
    have moved := first.ends before fresh
    moved.trans ((second _).ends moved.line (moved.fresh rfl))

instance {condition : Prop} [Decidable condition] {yes no : Step α}
    [first : Walks most least yes] [second : Walks most least no] :
    Walks most least (if condition then yes else no) := by
  split
  · exact first
  · exact second

instance : Walks (most + 1) most advance where
  ends before fresh := ⟨before.advanced, rfl, .inl rfl, fun _ => fresh⟩

instance : Walks most most kindAfterAhead where
  ends before fresh :=
    ⟨before.congr rfl rfl (TokenStream.next_peek _), rfl, .inl rfl, fun _ => fresh⟩

end Steps

section Parses

variable {α β : Type} {most middle least : Nat} {parse : Parse α} {next : α → Parse β}

instance (priority := low) [stays : Stays most parse] : Moves most 1 parse := ⟨stays.ends⟩

instance {step : Step α} [walks : Walks most least step] : Moves most least (liftM step) := ⟨walks.ends⟩

instance (priority := low) [stays : Stays most parse] : Stays (most + 1) parse :=
  ⟨fun before fresh => stays.ends (before.mono (by omega)) fresh⟩

instance pure_stays (value : α) : Stays (most + 1) (pure value : Parse α) where
  ends before fresh :=
    ⟨before.mono (Nat.succ_le_succ (Nat.zero_le _)), rfl, .inl rfl, fun _ => fresh⟩

theorem ends_bind {ending : List Token} {state : State}
    (first : state.Ends ending middle (parse.run.run state).1.isSome (parse.run.run state).2)
    (second : ∀ value, Stays middle (next value)) :
    state.Ends ending 1 ((parse >>= next).run.run state).1.isSome ((parse >>= next).run.run state).2 := by
  rw [OptionT.run_bind, Option.elimM, run_bind]
  cases found : (parse.run.run state).1 with
  | none =>
    rw [found] at first
    exact ⟨first.line, first.budget, first.depth, nofun⟩
  | some value =>
    rw [found] at first
    exact first.trans ((second value).ends first.line (first.fresh rfl))

instance [first : Moves most middle parse]
    [second : ∀ value, Stays middle (next value)] : Stays most (parse >>= next) :=
  ⟨fun before fresh => ends_bind (first.ends before fresh) second⟩

theorem stays_after [Moves most middle parse]
    (later : ∀ value, Stays middle (next value)) : Stays most (parse >>= next) :=
  inferInstance

instance {change : α → β} [Stays most parse] : Stays most (change <$> parse) := by
  rw [map_eq_pure_bind]
  infer_instance

instance {condition : Prop} [Decidable condition] {yes no : Parse α}
    [first : Stays most yes] [second : Stays most no] :
    Stays most (if condition then yes else no) := by
  split
  · exact first
  · exact second

end Parses

section Refusals

variable {α β : Type} {most : Nat}

theorem record_agrees (code : Code) (token : Token) (message : String) (state : State) :
    state.Agrees ((record code token message).run state).2 :=
  ⟨rfl, rfl, rfl, rfl, rfl, rfl⟩

theorem recordUnexpected_agrees (token : Token) (state : State) :
    state.Agrees ((recordUnexpected token).run state).2 := by
  unfold recordUnexpected
  split <;> exact record_agrees _ _ _ state

theorem recordMissing_agrees (kind : TokenKind) (state : State) :
    state.Agrees ((recordMissing kind).run state).2 := by
  rw [run_bind, run_ahead]
  split <;> exact record_agrees _ _ _ state

theorem moves_of_failure {least : Nat} {parse : Parse α} (gives : ∀ state, (parse.run.run state).1 = none)
    (same : ∀ state : State, state.Agrees (parse.run.run state).2) : Moves most least parse where
  ends {_ state} before _ := by
    have agrees := same state
    rw [gives]
    exact ⟨(before.mono (Nat.zero_le _)).congr agrees.current agrees.ahead
      (congrArg _ agrees.stream), agrees.budget, .inl agrees.depth, nofun⟩

theorem stays_of_failure {parse : Parse α} (gives : ∀ state, (parse.run.run state).1 = none)
    (same : ∀ state : State, state.Agrees (parse.run.run state).2) : Stays most parse :=
  ⟨(moves_of_failure gives same).ends⟩

instance (code : Code) (token : Token) (message : String) :
    Stays most (reject code token message : Parse α) :=
  stays_of_failure (fun _ => rfl) (record_agrees code token message)

instance (code : Code) (token : Token) (message : String) (next : β → Parse α) :
    Stays most (reject code token message >>= next) :=
  stays_of_failure (fun _ => rfl) (record_agrees code token message)

instance (token : Token) : Stays most (unexpected token : Parse α) :=
  stays_of_failure (fun _ => rfl) (recordUnexpected_agrees token)

instance (kind : TokenKind) : Stays most (do recordMissing kind; failure : Parse α) :=
  stays_of_failure (fun _ => rfl) (recordMissing_agrees kind)

instance : Stays most (outOfTurns : Parse α) where
  ends before _ :=
    ⟨(before.mono (Nat.zero_le _)).congr, rfl, .inl rfl, nofun⟩

end Refusals

section Tests

variable {α β : Type} {most : Nat} {accepts : α → Prop} {item : Parse α}

theorem ShowsAhead.inside {test : Step α} (shows : ShowsAhead test accepts)
    (state : State) (accepted : accepts (test.run state).1) : (test.run state).2.ahead.kind ≠ .newline := by
  rw [(shows.stays state).2]
  exact (shows.inner accepted).line

/-- A test whose answer is accepted only where the current token ends no line. -/
class ShowsCurrent (test : Step α) (accepts : α → Prop) : Prop where
  inside : ∀ state : State, accepts (test.run state).1 → (test.run state).2.current.kind ≠ .newline

section

variable [DecidablePred accepts] {test : Step α} {yes no : Parse β}

/-- Where the answer shows that the line goes on, one more token is in front of its end. -/
theorem stays_if_shown [tests : Walks most most test] [go : Stays (most + 1) yes] [stop : Stays most no]
    (further : ∀ {ending} (state : State), accepts (test.run state).1 →
      (test.run state).2.Before ending most → (test.run state).2.Before ending (most + 1)) :
    Stays most (liftM test >>= fun answer => if accepts answer then yes else no) where
  ends {_ state} before fresh := by
    have tested := tests.ends before fresh
    rw [run_lift_bind, run_bind]
    split
    · rename_i accepted
      exact tested.trans (go.ends (further state accepted tested.line) (tested.fresh rfl))
    · exact tested.trans (stop.ends tested.line (tested.fresh rfl))

instance (priority := high) [shows : ShowsAhead test accepts] [Walks 1 1 test] [Stays 2 yes] [Stays 1 no] :
    Stays 1 (liftM test >>= fun answer => if accepts answer then yes else no) :=
  stays_if_shown fun state accepted line => line.of_ahead (shows.inside state accepted)

instance (priority := high) [shows : ShowsCurrent test accepts] [Walks 0 0 test] [Stays 1 yes] [Stays 0 no] :
    Stays 0 (liftM test >>= fun answer => if accepts answer then yes else no) :=
  stays_if_shown fun state accepted line => line.of_current (shows.inside state accepted)

end

theorem stays_at_current {next : Token → Parse α}
    (inside : ∀ token, token.kind ≠ .newline → Stays 1 (next token))
    (atEnd : ∀ token, token.kind = .newline → Stays 0 (next token)) :
    Stays 0 (liftM current >>= next) where
  ends {_ state} before fresh := by
    by_cases ended : state.current.kind = .newline
    · exact (atEnd _ ended).ends before fresh
    · exact (inside _ ended).ends (before.of_current ended) fresh

theorem stays_at_mark {next : Mark → Parse α} (inside : ∀ mark, Inner mark.token.kind → Stays 1 (next mark)) :
    Stays 1 (liftM markCurrent >>= next) where
  ends {ending state} before fresh := by
    have marked : state.Ends ending 1 true (markCurrent.run state).2 :=
      markCurrent_looks.walks.ends before fresh
    exact marked.trans ((inside _ before.current).ends marked.line (marked.fresh rfl))

instance [inner : Inner kind] : ShowsCurrent (currentIs kind) (· = true) where
  inside state holds ended := by
    have found : state.current.kind = kind := eq_of_beq holds
    exact inner.line (found.symm.trans ended)

instance {test : Step Bool} {flag : Bool} [shows : ShowsAhead test (· = true)] :
    ShowsAhead test (fun answer => (flag && answer) = true) :=
  ⟨shows.stays, fun holds => shows.inner (Bool.and_eq_true_iff.mp holds).2⟩

instance (priority := high) {yes no : Parse α} [first : ShowsCurrent (currentIs kind) (· = true)]
    [second : ShowsAhead (aheadIs other) (· = true)] [go : Stays 2 yes] [stop : Stays 0 no] :
    Stays 0 (liftM (currentIs kind) >>= fun isFirst => liftM (aheadIs other) >>= fun isSecond =>
      if (isFirst && isSecond) = true then yes else no) where
  ends {_ state} before fresh := by
    rw [run_lift_bind, run_bind, run_currentIs]
    rw [run_lift_bind, run_bind, run_aheadIs]
    split
    · rename_i holds
      obtain ⟨here, next⟩ := Bool.and_eq_true_iff.mp holds
      exact go.ends ((before.of_current (first.inside state here)).of_ahead (second.inside state next)) fresh
    · exact stop.ends before fresh

instance [shows : ShowsAhead (aheadIs kind) (· = true)] : Stays 1 (expect kind) where
  ends {_ state} before fresh := by
    rw [run_expect]
    split
    · rename_i found
      have further := before.of_ahead (shows.inside state found)
      exact ⟨further.advanced, rfl, .inl rfl, fun _ => fresh⟩
    · have missing : Stays 1 (do recordMissing kind; failure : Parse Unit) := inferInstance
      exact missing.ends before fresh

instance {stops : TokenKind → Bool} [Stays 0 item]
    (turns : Nat) : Stays 1 (itemsAfterCommas stops item turns) := by
  induction turns <;> unfold itemsAfterCommas <;> infer_instance

section Loops

variable {test : Step Bool} [ShowsAhead test (· = true)] [Walks 1 1 test]

instance [Stays 2 item] (turns : Nat) : Stays 1 (itemsWhile test item turns) := by
  induction turns <;> unfold itemsWhile <;> infer_instance

instance [Stays 1 item] (turns : Nat) : Stays 1 (itemsBetween test item turns) := by
  induction turns <;> unfold itemsBetween <;> infer_instance

instance {add : α → Token → α} (turns : Nat) (soFar : α) : Stays 1 (tokensWhile test add turns soFar) := by
  induction turns generalizing soFar <;> unfold tokensWhile <;> infer_instance

end Loops

end Tests

set_option synthInstance.maxSize 4000

/-- A way of reading expressions that stays in the line, at every level at which one is read. -/
class LineReader (read : ReadExpr) : Prop where
  stays : ∀ level : Level, level.Readable → Stays 0 (read level)

section Operands

variable {most : Nat} {read : ReadExpr} [reader : LineReader read]
  (hints : Bool) (turns : Nat) (soFar : ParamsSoFar) (level : Level) (close : Symbol)

instance (priority := low) (level : Level) [readable : level.Readable] : Stays 0 (read level) :=
  reader.stays level readable

instance : Stays 1 (addPlain read hints soFar) := by
  unfold addPlain
  dsimp only
  split <;> infer_instance

instance : Stays 0 (addPart read hints soFar) := by
  refine stays_at_current (fun token inside => ?_) fun token ended => ?_
  · split <;> infer_instance
  · rw [ended]
    infer_instance

instance : Stays 1 (moreParameters read close hints turns soFar) := by
  induction turns generalizing soFar <;> unfold moreParameters <;> infer_instance

instance (context : Context) (expr : Expr) : Moves most most (target context expr) := by
  unfold target
  split
  · exact ⟨(pure_looks _).walks.ends⟩
  · exact moves_of_failure (fun _ => rfl) (record_agrees _ _ _)

instance target_stays (context : Context) (expr : Expr) : Stays (most + 1) (target context expr) := by
  unfold target
  split <;> infer_instance

section Clauses

omit reader

instance clauseAhead_walks : Walks most most clauseAhead := by
  unfold clauseAhead
  infer_instance

theorem clauseAhead_found {state : State} (found : (clauseAhead.run state).1) :
    (clauseAhead.run state).2.ahead.kind = .keyword .for_ ∨
      (clauseAhead.run state).2.ahead.kind = .keyword .async_ ∧
        (clauseAhead.run state).2.advanced.ahead.kind = .keyword .for_ := by
  unfold clauseAhead at found ⊢
  rw [run_bind, run_aheadIs] at found ⊢
  split at found
  · rename_i isFor
    rw [if_pos isFor]
    exact .inl (eq_of_beq isFor)
  · rename_i noFor
    rw [if_neg noFor]
    rw [run_bind, run_aheadIs] at found ⊢
    split at found
    · rename_i isAsync
      rw [if_pos isAsync]
      rw [run_bind, run_kindAfterAhead] at found ⊢
      refine .inr ⟨eq_of_beq isAsync, ?_⟩
      show (state.stream.peek 1).2.next.1.kind = _
      rw [TokenStream.next_peek]
      exact eq_of_beq found
    · cases found

end Clauses

theorem clause_ends {ending : List Token} {state : State} (before : state.Before ending 2)
    (fresh : state.statementFaults = 0) (starts : state.ahead.kind = .keyword .for_ ∨
      state.ahead.kind = .keyword .async_ ∧ state.advanced.ahead.kind = .keyword .for_) :
    state.Ends ending 1 ((clause read).run.run state).1.isSome ((clause read).run.run state).2 := by
  have body (isAsync : Bool) : Stays 1 (do
      let mark ← markCurrent
      advance
      let target ← targetList read
      expect (.keyword .in_)
      advance
      let iter ← read .conditional
      return { mark, target, iter, conditions := ← conditions read (← turns), isAsync } :
        Parse Comprehension) := inferInstance
  have first : state.Ends ending 1 true state.advanced := ⟨before.advanced, rfl, .inl rfl, fun _ => fresh⟩
  unfold clause
  rw [run_lift_bind, run_bind, run_advance, run_lift_bind, run_bind, run_currentIs]
  rcases starts with isFor | ⟨isAsync, isFor⟩
  · have plain : (state.advanced.current.kind == .keyword .async_) = false := by
      show (state.ahead.kind == _) = false
      rw [isFor]
      rfl
    rw [plain]
    exact first.trans ((body false).ends first.line fresh)
  · have marked : (state.advanced.current.kind == .keyword .async_) = true := beq_iff_eq.mpr isAsync
    have further := first.line.of_ahead (by rw [isFor]; exact TokenKind.noConfusion)
    have second : state.Ends ending 1 true state.advanced.advanced :=
      ⟨further.advanced, rfl, .inl rfl, fun _ => fresh⟩
    rw [marked, if_pos rfl, run_lift_bind, run_bind, run_advance]
    exact second.trans ((body true).ends second.line fresh)

instance : Stays 1 (clauses read turns) := by
  induction turns with
  | zero =>
    unfold itemsWhile
    infer_instance
  | succ turns ih =>
    refine ⟨fun {ending state} before fresh => ?_⟩
    have looked : state.Ends ending 1 true (clauseAhead.run state).2 := clauseAhead_walks.ends before fresh
    unfold itemsWhile
    rw [run_lift_bind, run_bind]
    split
    · rename_i found
      have further := looked.line.of_ahead (clauseAhead_shows.inside state found)
      have rest (first : Comprehension) : Stays 1 (do
          return first :: (← clauses read turns) : Parse (List Comprehension)) := inferInstance
      exact looked.trans (ends_bind (clause_ends further (looked.fresh rfl) (clauseAhead_found found)) rest)
    · exact looked.trans ((pure_stays _).ends looked.line (looked.fresh rfl))

instance : ShowsAhead ahead (fun token => startsExpression token.kind = true) where
  stays _ := ⟨rfl, rfl⟩
  inner starts := by
    rw [run_ahead] at starts
    constructor <;> intro ended <;> rw [ended] at starts <;> cases starts

omit reader in
instance {α : Type} (stream : TokenStream) (budget : Nat) (parse : Parse α) :
    Walks most most (onStream stream budget parse) where
  ends before fresh := ⟨before.congr, rfl, .inl rfl, fun _ => fresh⟩

omit reader in
instance (position : Position) (sources : List String) :
    Walks most most (embeddedAll read position sources) := by
  induction sources with
  | nil =>
    unfold embeddedAll
    infer_instance
  | cons =>
    unfold embeddedAll embedded
    infer_instance

omit reader in
instance (pieces : StringPieces) : Stays 1 (stringPieces read turns pieces) := by
  induction turns generalizing pieces <;> unfold stringPieces <;> infer_instance

instance : Stays 0 (operand read) := by
  refine stays_at_current (fun token inside => ?_) fun token ended => ?_
  · split <;> infer_instance
  · rw [ended]
    infer_instance

end Operands

section Expressions

variable {most : Nat} {read : ReadExpr} [reader : LineReader read]
  (turns : Nat) (left : Expr) (level : Level)

section Operators

omit reader

instance : Stays 1 compareOperator := by
  refine stays_after fun token => ?_
  split <;> infer_instance

end Operators

instance (op : BoolOp) : Stays 1 (booleanExpr read op left) := by
  refine stays_at_mark fun mark inside => ?_
  infer_instance

instance : Stays 1 (extend read left) := by
  refine stays_after fun token => ?_
  dsimp only
  split <;> try infer_instance
  split <;> infer_instance

instance : Stays 2 (namedExpr read left) := by
  unfold namedExpr
  split <;> infer_instance

instance [level.Readable] : Stays 1 (extendAll read level turns left) := by
  induction turns generalizing left <;> unfold extendAll <;> infer_instance

/-- An expression that is refused stays counted, with a fault that says so; any other one is counted
only while it is read. -/
instance [level.Readable] : Stays 0 (expressionWith read level) where
  ends {ending state} before fresh := by
    have body : Stays 0 (do
        let first ← operand read
        extendAll read level (← Parser.turns) first : Parse Expr) := inferInstance
    rw [OptionT.run_bind, Option.elimM, run_bind, run_enter]
    split
    · let refusal : Diagnostic :=
        { code := .nestingTooDeep, message := "nesting too deep"
          position := state.current.position, file := state.file }
      refine ⟨(before.mono (Nat.zero_le _)).congr, rfl, .inr ⟨rfl, refusal, ?_, rfl⟩, nofun⟩
      show refusal ∈ if state.statementFaults == 0 then refusal :: state.faults else state.faults
      rw [fresh]
      exact List.mem_cons_self ..
    · have inside := body.ends (before.congr : state.entered.Before ending 0) fresh
      show state.Ends ending 1 ((andLeave _).run.run state.entered).1.isSome
        ((andLeave _).run.run state.entered).2
      rw [run_andLeave]
      refine ⟨inside.line.congr, inside.budget, ?_, inside.fresh⟩
      rcases inside.depth with same | refused
      · exact .inl (by show _ - 1 = _; rw [same]; rfl)
      · exact .inr refused

end Expressions

instance (fuel : Nat) : LineReader (expressionWithin fuel) := by
  induction fuel <;> refine ⟨fun level _ => ?_⟩ <;> unfold expressionWithin <;> infer_instance

instance : LineReader expression := inferInstanceAs (LineReader (expressionWithin (maxDepth + 1)))

set_option synthInstance.maxSize 400000

instance (context : Context) (exprs : List Expr) : Stays 1 (exprs.mapM (target context)) := by
  induction exprs with
  | nil =>
    rw [List.mapM_nil]
    infer_instance
  | cons =>
    rw [List.mapM_cons]
    infer_instance

instance (inParens : Bool) (turns : Nat) : Stays 1 (fromNames inParens turns) := by
  induction turns <;> unfold fromNames <;> infer_instance

instance simpleStmt_stays : Stays 0 simpleStmt := by
  refine stays_at_current (fun token inside => ?_) fun token ended => ?_
  · split <;> infer_instance
  · rw [ended]
    infer_instance

end Stubwise.Parser
