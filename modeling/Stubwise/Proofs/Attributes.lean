import Stubwise.Infer.Run
import Stubwise.Proofs.Run

namespace Stubwise

open List Table World Run

namespace Session

variable {session : Session} {cls : Class} {attr : String} {methods : Table (List Nat)}
  {body : Nat → Infer Ty}

/-- What is recorded for an attribute: the join of all that was assigned. -/
def recorded (session : Session) (cls : Class) (attr : String) : Ty :=
  (session.assignedTo cls attr).getD .any

def settling (session : Session) (cls : Class) (attr : String) (t : Ty) : Session :=
  let table := session.memberTable cls
  let settled := { table with settled := table.settled.set attr t }
  { session with members := session.members.insert cls.stamp settled }

/-- An attribute that methods assign, all of which have been inferred. -/
structure Inferred (session : Session) (cls : Class) (attr : String) : Prop where
  listed : (session.memberTable cls).names.contains attr = true
  methods : ∃ methods, (session.memberTable cls).origin = .assigned methods ∧
    ∀ number ∈ (methods.get? attr).getD [], number ∈ session.returns

theorem run_inferReturn_of_returns (engine : Engine) {number : Nat} (inferred : number ∈ session.returns) :
    ∃ t, (engine.inferReturn number).run.run session = (.ok t, session) := by
  refine ⟨session.returns[number], ?_⟩
  rw [Engine.inferReturn, run_get_bind, Std.HashMap.getElem?_eq_some_getElem inferred]
  rfl

theorem run_forM_bodies {numbers : List Nat}
    (each : ∀ number ∈ numbers, ∃ t, (body number).run.run session = (.ok t, session)) :
    (numbers.forM fun number => do let _ ← body number).run.run session = (.ok (), session) := by
  induction numbers with
  | nil => rfl
  | cons _ _ ih =>
    obtain ⟨⟨t, first⟩, others⟩ := forall_mem_cons.mp each
    rw [List.forM, run_bind, run_bind, first]
    exact ih others

theorem run_ownMember_of_settled {t : Ty} (settled : (session.memberTable cls).settled.get? attr = some t) :
    (ownMember body cls attr).run.run session = (.ok (.ok (some t)), session) := by
  rw [ownMember, run_get_bind]
  dsimp only
  rw [settled]
  rfl

theorem run_ownMember_of_unread (listed : (session.memberTable cls).names.contains attr)
    (origin : (session.memberTable cls).origin = .assigned methods)
    (unread : (session.memberTable cls).settled.get? attr = none)
    (each : ∀ number ∈ (methods.get? attr).getD [], ∃ t, (body number).run.run session = (.ok t, session)) :
    (ownMember body cls attr).run.run session = (.ok (.ok (some (session.recorded cls attr))),
        session.settling cls attr (session.recorded cls attr)) := by
  rw [ownMember, run_get_bind]
  dsimp only
  rw [unread, listed, origin]
  rw [Bool.not_true, if_neg Bool.false_ne_true, run_bind, run_forM_bodies each]
  rfl

theorem run_lookupMember {world : World Infer} {after : Session} {t : Ty}
    (found : (world.lookup cls.ref).run.run session = (.ok (.ok cls), session))
    (plain : cls.params = []) (free : t.objectFree)
    (own : (world.ownMember cls attr).run.run session = (.ok (.ok (some t)), after)) :
    (world.lookupMember (.cls cls.ref) attr).run.run session =
      (.ok (.ok { member := t, owner := .cls cls.ref }), after) := by
  have same : world.apply (cls.subst []) t = pure t := by
    unfold apply Class.subst
    rw [plain, free]
    rfl
  simp only [lookupMember, member, plainMember, nominalMember, Ty.nominal?,
    classMember, memberWithin, List.contains_nil, Bool.false_eq_true, if_false, bind_assoc]
  rw [run_bind, found]
  dsimp only
  rw [plain, if_pos isEmpty_nil, pure_bind, run_bind, run_bind, own]
  dsimp only
  rw [same]
  rfl

/-- Where all methods that assign an attribute have been inferred, a read of it gives all that is
recorded just if nothing else was settled for it before. What is read is settled then, and what is
recorded stays; and it is what an instance of the class has as its attribute. -/
theorem attribute_read_complete_iff (inferred : session.Inferred cls attr) (depth : Nat) :
    let world := (Engine.within (depth + 1)).world
    ((((world.ownMember cls attr).run.run session).1 = .ok (.ok (some (session.recorded cls attr)))) ↔
      ∀ t, (session.memberTable cls).settled.get? attr = some t → t = session.recorded cls attr) ∧
    ∃ t after, (world.ownMember cls attr).run.run session = (.ok (.ok (some t)), after) ∧
      (after.memberTable cls).settled.get? attr = some t ∧
      after.recorded cls attr = session.recorded cls attr ∧
      (session.classes[cls.ref.qualName]? = some cls → cls.params = [] → t.objectFree = true →
        (world.lookupMember (.cls cls.ref) attr).run.run session =
          (.ok (.ok { member := t, owner := .cls cls.ref }), after)) := by
  intro world
  have found (known : session.classes[cls.ref.qualName]? = some cls) :
      (world.lookup cls.ref).run.run session = (.ok (.ok cls), session) := by
    show (lookupClass cls.ref).run.run session = _
    rw [lookupClass, run_get_bind, known]
    rfl
  cases settled : (session.memberTable cls).settled.get? attr with
  | some t =>
    have own : (world.ownMember cls attr).run.run session = _ := run_ownMember_of_settled settled
    refine ⟨by simp [own], t, session, own, settled, rfl, fun known plain free => ?_⟩
    exact run_lookupMember (found known) plain free own
  | none =>
    obtain ⟨methods, origin, all⟩ := inferred.methods
    have own : (world.ownMember cls attr).run.run session = _ :=
      run_ownMember_of_unread inferred.listed origin settled fun number listed =>
        run_inferReturn_of_returns (Engine.within depth) (all number listed)
    refine ⟨by simp [own], _, _, own, ?_, rfl, fun known plain free => ?_⟩
    · simp [settling, memberTable, get?_set]
    · exact run_lookupMember (found known) plain free own

/-- A class with the method that has the number 7. -/
def counter : Class :=
  { ref := { module := "__main__", name := "C" } }

def method : FuncInfo where
  definition := ⟨default, "__init__", .empty, [], [], none, false⟩
  frame := 0
  cls := some counter
  classes := [counter]
  signature := ⟨[], none, some 7⟩
  decorators := []
  self := "self"

/-- The method was run up to an assignment of an `int` to the attribute `x`. -/
def midway : Session where
  classes := Std.HashMap.ofList [(counter.ref.qualName, counter)]
  members := Std.HashMap.ofList
    [(counter.stamp, { names := ["x"], origin := .assigned [("x", [7])] })]
  functions := Std.HashMap.ofList [(7, method)]
  running := [7]
  assigned := Std.HashMap.ofList [(counter.ref.qualName, [("x", .builtin "int")])]

/-- The method comes to its end, after an assignment of a `str`. -/
def finish (session : Session) : Session :=
  { session with
    running := []
    returns := Std.HashMap.ofList [(7, .noneType)]
    assigned := Std.HashMap.ofList
      [(counter.ref.qualName, [("x", .union [.builtin "int", .builtin "str"])])] }

theorem finish_inferred {session : Session} (table : ∃ settled, session.memberTable counter =
      { names := ["x"], settled, origin := .assigned [("x", [7])] }) :
    session.finish.Inferred counter "x" := by
  obtain ⟨settled, same⟩ := table
  have kept : session.finish.memberTable counter = session.memberTable counter := rfl
  rw [same] at kept
  refine ⟨by rw [kept]; rfl, [("x", [7])], by rw [kept], fun number listed => ?_⟩
  obtain rfl : number = 7 := mem_singleton.mp listed
  simp [finish]

theorem midway_memberTable : midway.memberTable counter =
    { names := ["x"], origin := .assigned [("x", [7])] } := by
  simp [midway, memberTable]

theorem finish_recorded (session : Session) :
    session.finish.recorded counter "x" = .union [.builtin "int", .builtin "str"] := by
  simp [recorded, finish, assignedTo, get?]

theorem attribute_read_complete_iff_unread :
    midway.finish.Inferred counter "x" ∧
      (((Engine.within 1).world.ownMember counter "x").run.run midway.finish).1 =
        .ok (.ok (some (midway.finish.recorded counter "x"))) := by
  have inferred : midway.finish.Inferred counter "x" := finish_inferred ⟨_, midway_memberTable⟩
  refine ⟨inferred, (attribute_read_complete_iff inferred 0).1.mpr fun t settled => ?_⟩
  replace settled : (midway.memberTable counter).settled.get? "x" = some t := settled
  rw [midway_memberTable] at settled
  cases settled

/-- A read in the middle of the method settles an `int`, and this is what is read for ever, though
both types are recorded in the end. -/
theorem attribute_settled_midway :
    let read := ((Engine.within 1).world.ownMember counter "x").run.run midway
    read.2.finish.Inferred counter "x" ∧
      (((Engine.within 1).world.ownMember counter "x").run.run read.2.finish).1 =
        .ok (.ok (some (.builtin "int"))) ∧
      read.2.finish.recorded counter "x" = .union [.builtin "int", .builtin "str"] := by
  intro read
  have recorded : midway.recorded counter "x" = .builtin "int" := by
    simp [midway, recorded, assignedTo, get?]
  have running : ((Engine.within 0).inferReturn 7).run.run midway = (.ok .any, midway) := by
    simp only [Engine.inferReturn, run_get_bind]
    simp [midway]
    rfl
  have table := midway_memberTable
  have first : read = (.ok (.ok (some (.builtin "int"))),
      midway.settling counter "x" (.builtin "int")) := by
    rw [← recorded]
    refine run_ownMember_of_unread (by rw [table]; rfl) (by rw [table]) (by rw [table]; rfl) ?_
    exact forall_mem_singleton.mpr ⟨_, running⟩
  have later : read.2.memberTable counter =
      { names := ["x"], settled := [("x", .builtin "int")], origin := .assigned [("x", [7])] } := by
    rw [first]
    simp [settling, memberTable, midway, Table.set]
  refine ⟨finish_inferred ⟨_, later⟩, ?_, finish_recorded _⟩
  have settled : (read.2.finish.memberTable counter).settled.get? "x" = some (.builtin "int") := by
    show (read.2.memberTable counter).settled.get? "x" = _
    rw [later]
    rfl
  exact congrArg (·.1) (run_ownMember_of_settled settled)

end Session

end Stubwise
