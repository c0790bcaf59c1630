import Mathlib.Tactic.Choose
import Stubwise.Infer.Run
import Stubwise.Proofs.Run

/-!
Calls inside calls: of the arms of a union, of methods that iterate over an argument, and of the
`__call__` of an instance.
-/

namespace Stubwise

variable {α β γ : Type}

abbrev Outcome (α : Type) := Except Stop α × Session

/-- A call of a value in a session. -/
structure Call where
  value : Ty
  args : List Ty
  keywords : List KeywordArg
  session : Session

def Caller.answer (call : Caller) (c : Call) : Outcome Ty :=
  (call c.value c.args c.keywords).run.run c.session

theorem given_or_crash (ended : Except Stop Ty) :
    (∃ given : Except Fault Ty, ended = given.mapError .fault) ∨ ∃ crash, ended = .error (.crash crash) := by
  rcases ended with (fault | crash) | t
  · exact .inl ⟨.error fault, rfl⟩
  · exact .inr ⟨crash, rfl⟩
  · exact .inl ⟨.ok t, rfl⟩

/-- Work that makes calls: it is done, or it makes a call and goes on with the type or the fault that
the call gives. -/
inductive Plan (α : Type) where
  | done (outcome : Outcome α)
  | ask (c : Call) (next : Except Fault Ty → Session → Plan α)

namespace Plan

/-- The outcome of a plan if calls are answered in a given way. A crash of a call is one of the
plan. -/
def run (answer : Call → Outcome Ty) : Plan α → Outcome α
  | done outcome => outcome
  | ask c next =>
    match answer c with
    | (.ok t, left) => (next (.ok t) left).run answer
    | (.error (.fault fault), left) => (next (.error fault) left).run answer
    | (.error (.crash crash), left) => (.error (.crash crash), left)

def andThen (rest : Outcome α → Plan β) : Plan α → Plan β
  | done outcome => rest outcome
  | ask c next => ask c fun given left => (next given left).andThen rest

theorem run_ask {answer : Call → Outcome Ty} {c : Call} {given : Except Fault Ty} {left : Session}
    (next : Except Fault Ty → Session → Plan α) (ended : answer c = (given.mapError .fault, left)) :
    (ask c next).run answer = (next given left).run answer := by
  cases given <;> rw [run, ended] <;> rfl

theorem run_ask_of_crash {answer : Call → Outcome Ty} {c : Call} {crash : Crash} {left : Session}
    (next : Except Fault Ty → Session → Plan α) (ended : answer c = (.error (.crash crash), left)) :
    (ask c next).run answer = (.error (.crash crash), left) := by
  rw [run, ended]

theorem run_andThen (rest : Outcome α → Plan β) (answer : Call → Outcome Ty) (passes : ∀ crash left,
      rest (.error (.crash crash), left) = done (.error (.crash crash), left)) (plan : Plan α) :
    (plan.andThen rest).run answer = (rest (plan.run answer)).run answer := by
  induction plan with
  | done => rfl
  | ask _ _ ih =>
    simp only [andThen, run]
    split
    · exact ih _ _
    · exact ih _ _
    · rw [passes, run]

end Plan

/-- Work that depends on the way of calling values only through the calls that it makes. -/
class Planned (work : Caller → Infer α) : Prop where
  exists_plan : ∀ session, ∃ plan : Plan α, ∀ call : Caller,
    (work call).run.run session = plan.run call.answer

open Run

section Planned

variable {work : Caller → Infer α} {next : Caller → α → Infer β}

instance (fixed : Infer α) : Planned fun _ => fixed :=
  ⟨fun session => ⟨.done (fixed.run.run session), fun _ => rfl⟩⟩

theorem planned_bind (first : Planned work) (then_ : ∀ a, Planned fun call => next call a) :
    Planned fun call => work call >>= next call := by
  refine ⟨fun session => ?_⟩
  obtain ⟨plan, same⟩ := first.exists_plan session
  choose onward goes using fun a => (then_ a).exists_plan
  let rest : Outcome α → Plan β := fun outcome =>
    outcome.1.casesOn (fun stop => .done (.error stop, outcome.2)) fun a => onward a outcome.2
  refine ⟨plan.andThen rest, fun call => ?_⟩
  rw [Plan.run_andThen rest call.answer (fun _ _ => rfl), run_bind, same]
  generalize plan.run call.answer = ended
  obtain ⟨_ | a, left⟩ := ended
  · rfl
  · exact goes a left call

instance [first : Planned work] [then_ : ∀ a, Planned fun call => next call a] :
    Planned fun call => work call >>= next call :=
  planned_bind first then_

instance [planned : Planned work] : Planned fun call => attempt (work call) := by
  refine ⟨fun session => ?_⟩
  obtain ⟨plan, same⟩ := planned.exists_plan session
  let rest : Outcome α → Plan (Except Fault α) := fun outcome => .done (caught outcome.1, outcome.2)
  refine ⟨plan.andThen rest, fun call => ?_⟩
  rw [Plan.run_andThen rest call.answer (fun _ _ => rfl), run_attempt, same]
  rfl

instance (value : Ty) (args : List Ty) (keywords : List KeywordArg) :
    Planned fun call => call value args keywords := by
  refine ⟨fun session => ⟨.ask ⟨value, args, keywords, session⟩ fun given left =>
    .done (given.mapError .fault, left), fun call => ?_⟩⟩
  show Caller.answer call ⟨value, args, keywords, session⟩ = _
  rw [Plan.run]
  generalize Caller.answer call ⟨value, args, keywords, session⟩ = ended
  rcases ended with ⟨(_ | _) | _, left⟩ <;> rfl

instance {other : Caller → Infer α} (condition : Prop) [Decidable condition] [Planned work] [Planned other] :
    Planned fun call => if condition then work call else other call := by
  split <;> infer_instance

instance {each : Caller → γ → Infer α} [∀ c, Planned fun call => each call c] (list : List γ) :
    Planned fun call => list.mapM (each call) := by
  induction list with
  | nil => exact inferInstanceAs (Planned fun _ => pure [])
  | cons =>
    simp only [List.mapM_cons]
    infer_instance

end Planned

namespace Engine

variable {engine : Engine} {c q : Call}

section Caller

variable (args : List Ty) (keywords : List KeywordArg)

instance (t : Ty) : Planned fun call => engine.elementOfPlain call t := by
  unfold elementOfPlain
  split
  · infer_instance
  · infer_instance
  · refine planned_bind inferInstance fun iterator => ?_
    split <;> infer_instance

instance (t : Ty) : Planned fun call => engine.elementOfArm call t := by
  unfold elementOfArm
  split
  · refine planned_bind inferInstance fun joined => ?_
    split <;> infer_instance
  · infer_instance

instance (t : Ty) : Planned fun call => engine.elementType call t := by
  unfold elementType
  split <;> infer_instance

instance (index : Nat) (t : Ty) : Planned fun call => engine.pairOf call index t := by
  unfold pairOf
  split <;> infer_instance

instance : Planned fun call => engine.dictArgPairs call args := by
  cases args with
  | nil =>
    unfold dictArgPairs
    infer_instance
  | cons =>
    refine planned_bind inferInstance fun pair => ?_
    cases pair <;> infer_instance

instance (ref : ClassRef) : Planned fun call => engine.makeContainer call ref args keywords := by
  unfold makeContainer
  split
  case h_6 => split <;> infer_instance
  all_goals infer_instance

instance (t : Ty) : Planned fun call => engine.constructPlain call t args keywords := by
  unfold constructPlain
  split
  case h_7 =>
    dsimp only
    split <;> infer_instance
  all_goals infer_instance

instance (t : Ty) : Planned fun call => engine.construct call t args keywords := by
  unfold construct
  split <;> infer_instance

instance callStep_planned (value : Ty) : Planned fun call => engine.callStep call value args keywords := by
  unfold callStep
  split
  case h_8 =>
    refine planned_bind inferInstance fun found => ?_
    cases found <;> infer_instance
  all_goals infer_instance

end Caller

/-- Calls with at most `depth` calls inside each other. Calls below these go to `bottom`. -/
def callBelow (engine : Engine) (bottom : Caller) : Nat → Caller
  | 0 => bottom
  | depth + 1 => engine.callStep (engine.callBelow bottom depth)

theorem callWithin_eq (engine : Engine) (depth : Nat) :
    engine.callWithin depth = engine.callBelow (fun _ _ _ => throw (.crash .endless)) depth := by
  induction depth with
  | zero => rfl
  | succ depth ih =>
    funext value args keywords
    rw [callWithin, callBelow, ih]

theorem callBelow_add (bottom : Caller) (further depth : Nat) :
    engine.callBelow bottom (further + depth) = engine.callBelow (engine.callBelow bottom further) depth := by
  induction depth with
  | zero => rfl
  | succ _ ih => rw [← Nat.add_assoc, callBelow, callBelow, ih]

variable {work : (Call → Outcome Ty) → Outcome α} {depth further : Nat} {outcome other : Outcome α}

/-- Work that is given a way of calling ends in one way, whatever becomes of the calls that are more
than `depth` calls inside it. -/
def EndsWithin (engine : Engine) (depth : Nat) (work : (Call → Outcome Ty) → Outcome α)
    (outcome : Outcome α) : Prop :=
  ∀ bottom, work (engine.callBelow bottom depth).answer = outcome

theorem EndsWithin.mono (ends : engine.EndsWithin depth work outcome) (more : depth ≤ further) :
    engine.EndsWithin further work outcome := by
  intro bottom
  obtain ⟨rest, rfl⟩ := Nat.exists_eq_add_of_le' more
  rw [callBelow_add]
  exact ends _

/-- A call ends with an outcome, however many calls more may be inside each other. -/
def Ends (engine : Engine) (c : Call) (outcome : Outcome Ty) : Prop :=
  ∃ depth, engine.EndsWithin depth (· c) outcome

theorem EndsWithin.unique (first : engine.EndsWithin depth work outcome)
    (second : engine.EndsWithin further work other) : outcome = other := by
  have bottom : Caller := fun _ _ _ => pure .any
  rw [← first.mono (Nat.le_max_left depth further) bottom,
    ← second.mono (Nat.le_max_right depth further) bottom]

/-- Work comes to a call that is more than `depth` calls inside it, and a crash of this call is the
end of the work. -/
def Sinks (engine : Engine) (depth : Nat) (work : (Call → Outcome Ty) → Outcome α) : Prop :=
  ∃ q : Call, ∀ (bottom : Caller) (left : Session), bottom.answer q = (.error (.crash .endless), left) →
      work (engine.callBelow bottom depth).answer = (.error (.crash .endless), left)

theorem Sinks.not_endsWithin (sinks : engine.Sinks depth work) : ¬ engine.EndsWithin depth work outcome := by
  intro ends
  obtain ⟨q, falls⟩ := sinks
  -- The session that the crash leaves tells two ways of answering the call apart.
  let crashing (left : Session) : Caller := fun _ _ _ => do
    set left
    throw (.crash .endless)
  have always (left : Session) : outcome = (.error (.crash .endless), left) :=
    (ends (crashing left)).symm.trans (falls (crashing left) left rfl)
  have apart := (always { nextNode := 0 }).symm.trans (always { nextNode := 1 })
  exact absurd (congrArg (·.2.nextNode) apart) Nat.zero_ne_one

theorem Sinks.ask (sinks : engine.Sinks depth (· c)) (next : Except Fault Ty → Session → Plan α) :
    engine.Sinks depth fun answer => (Plan.ask c next).run answer := by
  obtain ⟨q, falls⟩ := sinks
  exact ⟨q, fun bottom left crash => Plan.run_ask_of_crash next (falls bottom left crash)⟩

theorem plan_ends_or_sinks
    (each : ∀ c, (∃ outcome, engine.EndsWithin depth (· c) outcome) ∨ engine.Sinks depth (· c))
    (plan : Plan α) :
    (∃ outcome, engine.EndsWithin depth (fun answer => plan.run answer) outcome) ∨
      engine.Sinks depth (fun answer => plan.run answer) := by
  induction plan with
  | done outcome => exact .inl ⟨outcome, fun _ => rfl⟩
  | ask c next ih =>
    rcases each c with ⟨⟨ended, left⟩, ends⟩ | sinks
    · rcases given_or_crash ended with ⟨given, rfl⟩ | ⟨crash, rfl⟩
      · rcases ih given left with ⟨outcome, goes⟩ | ⟨q, falls⟩
        · exact .inl ⟨outcome, fun bottom =>
            (Plan.run_ask next (ends bottom)).trans (goes bottom)⟩
        · exact .inr ⟨q, fun bottom last crash =>
            (Plan.run_ask next (ends bottom)).trans (falls bottom last crash)⟩
      · exact .inl ⟨(.error (.crash crash), left), fun bottom =>
          Plan.run_ask_of_crash next (ends bottom)⟩
    · exact .inr (sinks.ask next)

theorem exists_callStep_plan (engine : Engine) (c : Call) :
    ∃ plan : Plan Ty, ∀ call : Caller, (engine.callStep call).answer c = plan.run call.answer :=
  (callStep_planned c.args c.keywords c.value).exists_plan c.session

theorem call_ends_or_sinks (engine : Engine) (depth : Nat) (c : Call) :
    (∃ outcome, engine.EndsWithin depth (· c) outcome) ∨ engine.Sinks depth (· c) := by
  induction depth generalizing c with
  | zero => exact .inr ⟨c, fun _ _ crash => crash⟩
  | succ _ ih =>
    obtain ⟨plan, same⟩ := engine.exists_callStep_plan c
    rcases plan_ends_or_sinks ih plan with ⟨outcome, goes⟩ | ⟨q, falls⟩
    · exact .inl ⟨outcome, fun bottom => (same _).trans (goes bottom)⟩
    · exact .inr ⟨q, fun bottom left crash => (same _).trans (falls bottom left crash)⟩

inductive Asks (engine : Engine) : Plan α → Call → Prop where
  | here (c : Call) (next : Except Fault Ty → Session → Plan α) : Asks engine (.ask c next) c
  | later {c q : Call} {next : Except Fault Ty → Session → Plan α} {given : Except Fault Ty}
      {left : Session} (ends : engine.Ends c (given.mapError .fault, left))
      (rest : Asks engine (next given left) q) : Asks engine (.ask c next) q

/-- A call leads to another one that is made directly inside it. -/
def Leads (engine : Engine) (c q : Call) : Prop :=
  ∃ plan : Plan Ty,
    (∀ call : Caller, (engine.callStep call).answer c = plan.run call.answer) ∧ engine.Asks plan q

/-- A call of an instance leads to the call of its `__call__`: where each of endlessly many values is
the `__call__` of the one before, calls are endless. -/
theorem leads_to_member {number : Nat} {base bound : Ty} {found : Found} {middle after : Session}
    (instance_ : c.value = .object number base)
    (looked : (engine.world.lookupMember c.value "__call__").run.run c.session = (.ok (.ok found), middle))
    (binds : (engine.bindMember c.value "__call__" found).run.run middle = (.ok bound, after)) :
    engine.Leads c { c with value := bound, session := after } := by
  refine ⟨.ask _ fun given left => .done (given.mapError .fault, left), fun call => ?_, .here _ _⟩
  rw [instance_] at looked binds
  rw [Caller.answer, instance_]
  unfold callStep
  dsimp only
  rw [run_bind, looked]
  dsimp only
  rw [run_bind, binds]
  show call.answer { c with value := bound, session := after } = _
  rw [Plan.run]
  rcases call.answer _ with ⟨(_ | _) | _, _⟩ <;> rfl

theorem Asks.exists_endsWithin {plan : Plan α} (asks : engine.Asks plan q)
    (ends : engine.EndsWithin depth (fun answer => plan.run answer) outcome) :
    ∃ outcome, engine.EndsWithin depth (· q) outcome := by
  induction asks with
  | here c next =>
    exact (engine.call_ends_or_sinks depth c).resolve_right fun sinks =>
      (sinks.ask next).not_endsWithin ends
  | @later c q next given left before rest ih =>
    obtain ⟨first, known⟩ := (engine.call_ends_or_sinks depth c).resolve_right fun sinks =>
      (sinks.ask next).not_endsWithin ends
    obtain ⟨_, again⟩ := before
    obtain rfl := known.unique again
    exact ih fun bottom => (Plan.run_ask next (known bottom)).symm.trans (ends bottom)

theorem plan_ends (plan : Plan α) (each : ∀ q, engine.Asks plan q → ∃ outcome, engine.Ends q outcome) :
    ∃ depth outcome, engine.EndsWithin depth (fun answer => plan.run answer) outcome := by
  induction plan with
  | done outcome => exact ⟨0, outcome, fun _ => rfl⟩
  | ask c next ih =>
    obtain ⟨⟨ended, left⟩, depth, ends⟩ := each c (.here c next)
    rcases given_or_crash ended with ⟨given, rfl⟩ | ⟨crash, rfl⟩
    · obtain ⟨further, outcome, goes⟩ := ih given left fun q asks =>
        each q (.later ⟨depth, ends⟩ asks)
      refine ⟨max depth further, outcome, fun bottom => ?_⟩
      have first := ends.mono (Nat.le_max_left depth further) bottom
      have last := goes.mono (Nat.le_max_right depth further) bottom
      exact (Plan.run_ask next first).trans last
    · exact ⟨depth, (.error (.crash crash), left), fun bottom =>
        Plan.run_ask_of_crash next (ends bottom)⟩

theorem acc_of_endsWithin {outcome : Outcome Ty} (ends : engine.EndsWithin depth (· c) outcome) :
    Acc (fun q c => engine.Leads c q) c := by
  induction depth generalizing c outcome with
  | zero => exact absurd ends (Sinks.not_endsWithin ⟨c, fun _ _ crash => crash⟩)
  | succ depth ih =>
    refine .intro c fun q ⟨plan, same, asks⟩ => ?_
    obtain ⟨_, inside⟩ := asks.exists_endsWithin fun bottom =>
      (same (engine.callBelow bottom depth)).symm.trans (ends bottom)
    exact ih inside

theorem exists_ends_of_acc (acc : Acc (fun q c => engine.Leads c q) c) :
    ∃ outcome, engine.Ends c outcome := by
  induction acc with
  | intro c _ ih =>
    obtain ⟨plan, same⟩ := engine.exists_callStep_plan c
    obtain ⟨depth, outcome, ends⟩ := plan_ends plan fun q asks => ih q ⟨plan, same, asks⟩
    exact ⟨outcome, depth + 1, fun bottom => (same _).trans (ends bottom)⟩

/-- A call ends just if no chain of calls from it is endless. One that ends has the same outcome
under all bounds that are high enough, and one that does not end goes beyond every bound. -/
theorem call_ends_iff (engine : Engine) (c : Call) :
    ((∃ outcome, engine.Ends c outcome) ↔ Acc (fun q c => engine.Leads c q) c) ∧
    (∀ outcome, engine.Ends c outcome →
      ∃ depth, ∀ further, depth ≤ further → (engine.callWithin further).answer c = outcome) ∧
    ((¬ ∃ outcome, engine.Ends c outcome) →
      ∀ depth, ((engine.callWithin depth).answer c).1 = .error (.crash .endless)) := by
  refine ⟨⟨fun ⟨_, _, ends⟩ => acc_of_endsWithin ends, exists_ends_of_acc⟩,
    fun outcome ⟨depth, ends⟩ => ⟨depth, fun further more => ?_⟩, fun never depth => ?_⟩
  · rw [callWithin_eq]
    exact ends.mono more _
  · rcases engine.call_ends_or_sinks depth c with ⟨outcome, ends⟩ | ⟨q, falls⟩
    · exact absurd ⟨outcome, depth, ends⟩ never
    · rw [callWithin_eq]
      exact congrArg (·.1) (falls (fun _ _ _ => throw (.crash .endless)) q.session rfl)

/-- The first instance in a session, of a class of its module. -/
def firstInstance : Ty :=
  .object 0 (.cls { module := "__main__", name := "A" })

/-- A session in which the `__call__` of an instance is the instance itself. -/
def selfCalling : Session where
  instances := { attributes := #[[("__call__", firstInstance)]] }

/-- However many calls may be inside each other, a call of such an instance goes beyond. -/
theorem self_calling_instance_endless :
    (selfCalling.engine.call firstInstance [] []).run.run selfCalling =
        (.error (.crash .endless), selfCalling) ∧
      ∀ depth, (selfCalling.engine.callWithin depth).answer ⟨firstInstance, [], [], selfCalling⟩ =
        (.error (.crash .endless), selfCalling) := by
  have again (call : Caller) :
      (selfCalling.engine.callStep call).answer ⟨firstInstance, [], [], selfCalling⟩ =
        call.answer ⟨firstInstance, [], [], selfCalling⟩ := rfl
  have every (depth : Nat) : (selfCalling.engine.callWithin depth).answer
      ⟨firstInstance, [], [], selfCalling⟩ = (.error (.crash .endless), selfCalling) := by
    induction depth with
    | zero => rfl
    | succ _ ih => exact (again _).trans ih
  exact ⟨every maxCallDepth, every⟩

end Engine

end Stubwise
