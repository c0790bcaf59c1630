import Stubwise.Proofs.Parser.Expression
import Stubwise.Proofs.RoundTrip.Plain

namespace Stubwise.Parser

open List

variable {α β : Type} {depth : Nat} {tokens rest final : List Token} {token second : Token}
  {answer : Bool} {third : Token} {kind : TokenKind} {value : α}

structure State.At (depth : Nat) (tokens : List Token) (state : State) : Prop where
  sees : ∃ given, state.Reads given ∧ given.map Token.placeless = tokens
  depth : state.depth = depth
  room : tokens.length ≤ state.budget

/-- Nothing was found wrong on the way from one state to the other. -/
structure State.Calm (before after : State) : Prop where
  budget : after.budget = before.budget
  faults : after.faults = before.faults

theorem State.Calm.refl (state : State) : state.Calm state := ⟨rfl, rfl⟩

theorem State.Calm.trans {first second third : State} (one : first.Calm second)
    (other : second.Calm third) : first.Calm third :=
  ⟨other.budget.trans one.budget, other.faults.trans one.faults⟩

namespace State.At

variable {state : State}

theorem current (here : state.At depth (token :: rest)) : state.current.placeless = token := by
  obtain ⟨given, reads, same⟩ := here.sees
  cases given with
  | nil => cases same
  | cons =>
    rw [reads.current]
    exact (cons.inj same).1

theorem ahead (here : state.At depth (token :: second :: rest)) : state.ahead.placeless = second := by
  obtain ⟨given, reads, same⟩ := here.sees
  match given with
  | [] => cases same
  | [_] => cases same
  | _ :: second :: _ =>
    rw [reads.ahead]
    exact (cons.inj (cons.inj same).2).1

theorem advanced (here : state.At depth (token :: second :: rest)) :
    state.advanced.At depth (second :: rest) := by
  obtain ⟨given, reads, same⟩ := here.sees
  match given with
  | [] => cases same
  | [_] => cases same
  | _ :: second :: later =>
    refine ⟨⟨second :: later, reads.advanced (by simp), (cons.inj same).2⟩, here.depth, ?_⟩
    exact Nat.le_of_succ_le here.room

theorem afterAhead (here : state.At depth (token :: second :: third :: rest)) :
    state.stream.next.1.placeless = third :=
  here.advanced.ahead

theorem congr {other : State} (here : state.At depth tokens) (current : other.current = state.current)
    (ahead : other.ahead = state.ahead) (stream : other.stream.next = state.stream.next)
    (sameDepth : other.depth = state.depth) (budget : other.budget = state.budget) :
    other.At depth tokens := by
  obtain ⟨given, reads, same⟩ := here.sees
  exact ⟨⟨given, reads.congr current ahead stream, same⟩, sameDepth.trans here.depth,
    by rw [budget]; exact here.room⟩

end State.At

/-- The step, which only looks, finds `value` in front of `tokens`. -/
def Tells (step : Step α) (tokens : List Token) (value : α) : Prop :=
  ∀ ⦃depth : Nat⦄ ⦃state : State⦄, state.At depth tokens →
    ∃ after, step.run state = (value, after) ∧ after.At depth tokens ∧ state.Calm after

/-- The step gives a good value and leaves `rest` behind the current token. -/
def Accepts (step : Parse α) (depth : Nat) (tokens rest : List Token) (good : α → Prop) : Prop :=
  ∀ ⦃state : State⦄, state.At depth tokens → ∃ value after last,
    step.run.run state = (some value, after) ∧ good value ∧ after.At depth (last :: rest) ∧
      state.Calm after

section Rules

variable {good : α → Prop} {good' : β → Prop}

theorem accepts_pure (holds : good value) : Accepts (pure value) depth (token :: rest) rest good :=
  fun state here => ⟨value, state, token, rfl, holds, here, .refl state⟩

theorem Accepts.bind {step : Parse α} {next : α → Parse β} (first : Accepts step depth tokens rest good)
    (second : ∀ value last, good value → Accepts (next value) depth (last :: rest) final good') :
    Accepts (step >>= next) depth tokens final good' := by
  intro state here
  obtain ⟨value, middle, last, run, holds, there, calm⟩ := first here
  obtain ⟨result, after, end_, runNext, found, stands, calmNext⟩ := second value last holds there
  refine ⟨result, after, end_, ?_, found, stands, calm.trans calmNext⟩
  rw [OptionT.run_bind, Option.elimM, run_bind, run]
  exact runNext

theorem accepts_tells {step : Step α} {next : α → Parse β}
    (tells : Tells step tokens value) (accepts : Accepts (next value) depth tokens rest good') :
    Accepts (liftM step >>= next) depth tokens rest good' := by
  intro state here
  obtain ⟨middle, run, there, calm⟩ := tells here
  obtain ⟨result, after, last, runNext, found, stands, calmNext⟩ := accepts there
  refine ⟨result, after, last, ?_, found, stands, calm.trans calmNext⟩
  rw [run_lift_bind, run_bind, run]
  exact runNext

theorem accepts_if {step : Step Bool} {yes no : Parse β} (tells : Tells step tokens true)
    (accepts : Accepts yes depth tokens rest good') :
    Accepts (liftM step >>= fun answer => if answer = true then yes else no) depth tokens rest
      good' :=
  accepts_tells tells accepts

theorem accepts_else {step : Step Bool} {yes no : Parse β} (tells : Tells step tokens false)
    (accepts : Accepts no depth tokens rest good') :
    Accepts (liftM step >>= fun answer => if answer = true then yes else no) depth tokens rest
      good' :=
  accepts_tells tells accepts

theorem accepts_advance {next : Unit → Parse β}
    (accepts : Accepts (next ()) depth (second :: rest) final good') :
    Accepts (liftM advance >>= next) depth (token :: second :: rest) final good' := by
  intro state here
  obtain ⟨result, after, last, run, found, stands, calm⟩ := accepts here.advanced
  exact ⟨result, after, last, run, found, stands, ⟨calm.budget, calm.faults⟩⟩

theorem accepts_expect {next : Unit → Parse β} (expected : second.kind = kind)
    (accepts : Accepts (next ()) depth (second :: rest) final good') :
    Accepts (expect kind >>= next) depth (token :: second :: rest) final good' := by
  intro state here
  obtain ⟨result, after, last, run, found, stands, calm⟩ := accepts here.advanced
  have kind : (state.ahead.kind == kind) = true := by
    rw [beq_iff_eq, ← expected, ← here.ahead]
    rfl
  refine ⟨result, after, last, ?_, found, stands, ⟨calm.budget, calm.faults⟩⟩
  rw [OptionT.run_bind, Option.elimM, run_bind, run_expect, if_pos kind]
  exact run

theorem accepts_current {next : Token → Parse β} (accepts : ∀ shown : Token, shown.placeless = token →
      Accepts (next shown) depth (token :: rest) final good') :
    Accepts (liftM current >>= next) depth (token :: rest) final good' :=
  fun state here => accepts state.current here.current here

theorem accepts_ahead {next : Token → Parse β} (accepts : ∀ shown : Token, shown.placeless = second →
      Accepts (next shown) depth (token :: second :: rest) final good') :
    Accepts (liftM Parser.ahead >>= next) depth (token :: second :: rest) final good' :=
  fun state here => accepts state.ahead here.ahead here

theorem accepts_markCurrent {next : Mark → Parse β}
    (accepts : ∀ mark : Mark, mark.token.placeless = token →
      Accepts (next mark) depth (token :: rest) final good') :
    Accepts (liftM markCurrent >>= next) depth (token :: rest) final good' := by
  intro state here
  have counted : State.At depth (token :: rest) { state with nextNode := state.nextNode + 1 } :=
    here.congr rfl rfl rfl rfl rfl
  obtain ⟨result, after, last, run, found, stands, calm⟩ :=
    accepts ⟨state.current, state.nextNode⟩ here.current counted
  exact ⟨result, after, last, run, found, stands, ⟨calm.budget, calm.faults⟩⟩

theorem accepts_turns {next : Nat → Parse β}
    (accepts : ∀ count, tokens.length ≤ count → Accepts (next count) depth tokens final good') :
    Accepts (liftM turns >>= next) depth tokens final good' :=
  fun state here => accepts state.budget here.room here

end Rules

section Looking

theorem tells_currentIs (same : (token.kind == kind) = answer) :
    Tells (currentIs kind) (token :: rest) answer := by
  intro depth state here
  refine ⟨state, ?_, here, .refl state⟩
  rw [run_currentIs, ← same, ← here.current]
  rfl

theorem tells_aheadIs (same : (second.kind == kind) = answer) :
    Tells (aheadIs kind) (token :: second :: rest) answer := by
  intro depth state here
  refine ⟨state, ?_, here, .refl state⟩
  rw [run_aheadIs, ← same, ← here.ahead]
  rfl

theorem tells_kindAfterAhead : Tells kindAfterAhead (token :: second :: third :: rest) third.kind := by
  intro depth state here
  refine ⟨{ state with stream := (state.stream.peek 1).2 }, ?_, ?_, ⟨rfl, rfl⟩⟩
  · rw [run_kindAfterAhead, ← here.afterAhead]
    rfl
  · exact here.congr rfl rfl (TokenStream.next_peek _) rfl rfl

theorem tells_bind {step : Step α} {next : α → Step β} {result : β}
    (first : Tells step tokens value) (later : Tells (next value) tokens result) :
    Tells (step >>= next) tokens result := by
  intro depth state here
  obtain ⟨middle, run, there, calm⟩ := first here
  obtain ⟨after, runNext, stands, calmNext⟩ := later there
  refine ⟨after, ?_, stands, calm.trans calmNext⟩
  rw [run_bind, run]
  exact runNext

theorem tells_pure : Tells (pure value) tokens value := fun _ state here => ⟨state, rfl, here, .refl state⟩

theorem tells_ahead_bind {next : Token → Step β} {result : β}
    (later : ∀ shown : Token, shown.placeless = second →
      Tells (next shown) (token :: second :: rest) result) :
    Tells (Parser.ahead >>= next) (token :: second :: rest) result :=
  fun _ state here => later state.ahead here.ahead here

theorem tells_clauseAhead (loop : second.kind ≠ .keyword .for_) (async : second.kind ≠ .keyword .async_) :
    Tells clauseAhead (token :: second :: rest) false := by
  refine tells_bind (tells_aheadIs (beq_eq_false_iff_ne.mpr loop)) ?_
  exact tells_bind (tells_aheadIs (beq_eq_false_iff_ne.mpr async)) tells_pure

def binding : List Token → Level
  | token :: second :: _ =>
    if token.kind = .keyword .not_ ∧ second.kind = .keyword .in_ then .compare
    else bindingLevel token.kind
  | _ => .named

theorem binding_cons (ordinary : token.kind ≠ .keyword .not_) :
    binding (token :: second :: rest) = bindingLevel token.kind :=
  if_neg fun negated => ordinary negated.1

theorem tells_levelAhead :
    Tells levelAhead (token :: second :: third :: rest) (binding (second :: third :: rest)) := by
  refine tells_ahead_bind fun shown same => ?_
  have kind : shown.kind = second.kind := by rw [← same]; rfl
  rw [kind, binding]
  by_cases negated : second.kind = .keyword .not_
  · rw [negated]
    refine tells_bind tells_kindAfterAhead ?_
    by_cases member : third.kind = .keyword .in_
    · simpa [member] using tells_pure
    · simpa [member, bindingLevel, compareOp?] using tells_pure
  · simpa [negated] using tells_pure

theorem tells_comparisonAhead :
    Tells comparisonAhead (token :: second :: third :: rest)
      (binding (second :: third :: rest) == .compare) :=
  tells_bind tells_levelAhead tells_pure

end Looking

def extendedOperand (read : ReadExpr) (level : Level) : Parse Expr := do
  let first ← operand read
  extendAll read level (← turns) first

theorem expressionWith_accepts {read : ReadExpr} {level : Level} {good : Expr → Prop}
    (low : depth < maxDepth) (body : Accepts (extendedOperand read level) (depth + 1) tokens rest good) :
    Accepts (expressionWith read level) depth tokens rest good := by
  intro state here
  have entered : state.entered.At (depth + 1) tokens :=
    ⟨here.sees.imp fun given sees => ⟨sees.1.congr rfl rfl rfl, sees.2⟩,
      congrArg (· + 1) here.depth, here.room⟩
  obtain ⟨value, after, last, run, holds, there, calm⟩ := body entered
  refine ⟨value, (leave.run after).2, last, ?_, holds, ?_, ⟨calm.budget, calm.faults⟩⟩
  · have shallow : ¬ maxDepth < state.depth + 1 := by
      rw [here.depth]
      omega
    rw [OptionT.run_bind, Option.elimM, run_bind, run_enter, if_neg shallow]
    refine (run_andLeave ..).trans ?_
    exact congrArg (fun result => (result.1, (leave.run result.2).2)) run
  · refine ⟨there.sees.imp fun given sees => ⟨sees.1.congr rfl rfl rfl, sees.2⟩, ?_, there.room⟩
    show after.depth - 1 = depth
    rw [there.depth]
    rfl

end Stubwise.Parser
