import Stubwise.Proofs.Orderly.Stmt
import Stubwise.Proofs.Scope.Growth
import Stubwise.Proofs.Scope.History

namespace Stubwise

/-- How sessions may change, and in which of them work starts. -/
class Tracked where
  Starts : Session → Prop
  Changes : Session → Session → Prop
  refl (session : Session) : Changes session session
  trans {before middle after : Session} (first : Changes before middle)
    (second : Changes middle after) : Changes before after
  stays {before after : Session} (starts : Starts before) (change : Changes before after) :
    Starts after

namespace Tracked

variable [Tracked]

instance lenient : Standard where
  near _ := True
  allows _ := True
  reports _ := True
  usual _ _ := trivial
  stays _ _ _ _ := trivial
  reported _ _ := trivial

instance : AllProper Position := ⟨fun _ => trivial⟩

instance : AllProper Cause := ⟨fun cause => by cases cause <;> trivial⟩

instance fault_allProper : AllProper Fault :=
  ⟨fun fault => (list_allProper : AllProper (List Cause)).all fault.causes⟩

instance : AllProper Stop where
  all stop := by
    cases stop with
    | fault fault => exact fault_allProper.all fault
    | crash => trivial

instance except_allProper {ε α : Type} [Propriety ε] [Propriety α] [error : AllProper ε]
    [ok : AllProper α] : AllProper (Except ε α) where
  all outcome := by
    cases outcome with
    | ok a => exact ok.all a
    | error e => exact error.all e

instance work : Accountable Infer where
  Yields post run := ∀ session, Starts session →
    Changes session (run.run.run session).2 ∧ Meets post (run.run.run session).1
  pure holds session _ := ⟨refl session, holds⟩
  bind {_ _ _ _ run _} first second session starts := by
    obtain ⟨change, outcome⟩ := first session starts
    rw [Run.run_bind]
    generalize run.run.run session = ended at change outcome
    match ended with
    | (.ok a, left) =>
      obtain ⟨later, result⟩ := second a outcome left (stays starts change)
      exact ⟨trans change later, result⟩
    | (.error stop, left) => exact ⟨change, outcome⟩

instance inferring : Inferring where
  throw known session _ := ⟨refl session, known⟩
  attempt {_ _ run} yields session starts := by
    obtain ⟨change, outcome⟩ := yields session starts
    rw [Run.run_attempt]
    refine ⟨change, ?_⟩
    generalize (run.run.run session).1 = ended at outcome
    rcases ended with (_ | _) | _ <;> exact outcome
  get later session starts := later session session starts

variable {α : Type} [Propriety α]

theorem changes_of_orderly {run : Infer α} (known : Orderly run) {session : Session}
    (starts : Starts session) : Changes session (run.run.run session).2 :=
  (known.yields session starts).1

theorem orderly_of_changes [every : AllProper α] {run : Infer α}
    (changes : ∀ session, Starts session → Changes session (run.run.run session).2) :
    Orderly run where
  yields session starts := by
    exact ⟨changes session starts, (except_allProper : AllProper (Except Stop α)).all _⟩

end Tracked

open Frames

/-- The frames that are there when work starts. -/
class Since where
  frames : Frames

variable [Watch] [since : Since]

instance watchedSessions : Tracked where
  Starts session := Watch.home < since.frames.all.size ∧ since.frames.Grows session.frames
  Changes before after := Watch.Step before.frames after.frames
  refl session := .refl session.frames
  trans first second := first.trans second
  stays starts change := ⟨starts.1, starts.2.trans (change (starts.2.lt starts.1)).1⟩

theorem orderly_of_frames {α : Type} [Propriety α] [AllProper α] {run : Infer α}
    (same : ∀ session, (run.run.run session).2.frames = session.frames) : Orderly run :=
  Tracked.orderly_of_changes fun session _ => by
    show Watch.Step session.frames (run.run.run session).2.frames
    rw [same]
    exact .refl _

namespace Session

omit [Watch] since in
theorem moduleMember_frames (module name : String) (session : Session) :
    ((moduleMember module name).run.run session).2.frames = session.frames := by
  have stubs {α : Type} (outcome : Except Stop α) (session : Session) :
      (ofStubs outcome).run.run session = (outcome, session) := by
    cases outcome <;> rfl
  unfold moduleMember
  rw [Run.run_get_bind]
  split
  · rfl
  · rw [Run.run_bind, Run.run_attempt, stubs]
    generalize Run.caught _ = ended
    cases ended <;> rfl

theorem loadName_watched (frame : Nat) (name : String) : Orderly (loadName frame name) := by
  refine Tracked.orderly_of_changes fun session _ => ?_
  unfold loadName
  rw [Run.run_get_bind]
  split
  · exact .refl _
  · exact .refl _
  · exact .refl _
  · rename_i root loaded
    have own := unresolved_is_local loaded
    have same := moduleMember_frames ClassRef.builtinsModule name session
    rw [Run.run_bind]
    generalize (moduleMember ClassRef.builtinsModule name).run.run session = ended at same
    -- Looking for the type leaves the frames as they are, so that the name still is local there.
    have unchanged (left : Session) (same : left.frames = session.frames) :
        Watch.Step session.frames left.frames := same ▸ .refl _
    match ended with
    | (.error _, left) | (.ok (.error _), left) => exact unchanged left same
    | (.ok (.ok t), left) =>
      show Watch.Step session.frames (left.frames.bind root name t)
      rw [show left.frames = session.frames from same]
      exact Watch.step_bind fun _ => .inl (Frame.declares_iff.mpr (.inl own))

theorem deleteName_watched (frame : Nat) (name : String) : Orderly (deleteName frame name) := by
  refine Tracked.orderly_of_changes fun session _ => ?_
  unfold deleteName
  rw [Run.run_get_bind]
  split
  · exact Watch.step_unbind
  · exact .refl _

omit [Watch] since in
theorem blame_frames (expr : Expr) (fault : Fault) (session : Session) :
    ((blame expr fault).run.run session).2.frames = session.frames := by
  unfold blame
  dsimp only
  split <;> rfl

omit [Watch] since in
theorem reportFault_frames (fault : Fault) (position : Position) (session : Session) :
    ((reportFault fault position).run.run session).2.frames = session.frames := by
  show (if _ then session else _ : Session).frames = session.frames
  split <;> rfl

instance : Bookkeeping where
  modify _ unseen := orderly_of_frames fun session => (unseen session).frames
  modifyGet _ unseen := orderly_of_frames fun session => (unseen session).frames
  moduleMember module name := orderly_of_frames (moduleMember_frames module name)
  reportFault fault position := orderly_of_frames (reportFault_frames fault position)
  blame expr fault := orderly_of_frames (blame_frames expr fault)
  loadName := loadName_watched
  deleteName := deleteName_watched

end Session

theorem stores_of_lets {frame : Nat} {name : String} (lets : Watch.Lets since.frames frame name) :
    Stores frame name where
  store t := Tracked.orderly_of_changes fun session starts => by
    unfold Session.storeName
    rw [Run.run_get_bind]
    split
    · rename_i target found
      have now := lets.grows starts.2
      exact Watch.step_bind fun here => .inr (now.lands (route_of_storeTarget found) here)
    · exact .refl _

theorem declare_watched {frame : Nat} (spare : Watch.Spare since.frames frame) (name : String) :
    Orderly (Session.modifyFrame frame (·.declare name)) :=
  Tracked.orderly_of_changes fun _ _ =>
    Watch.step_modify (fun _ => Frame.grows_declare) fun here => absurd here spare.away

theorem orderly_addFrame {α : Type} [Propriety α] [AllProper α] {frame : Frame} {next : Nat → Infer α}
    (later : ∀ (now : Since) (id : Nat), Watch.Added since.frames now.frames frame id →
      @Orderly Infer _ (@Tracked.work (@watchedSessions _ now)) α _ (next id)) :
    Orderly (Session.addFrame frame >>= next) := by
  refine Tracked.orderly_of_changes fun session starts => ?_
  have added : (Session.addFrame frame >>= next).run.run session = (next session.frames.all.size).run.run
        { session with frames := (session.frames.add frame).1 } := rfl
  have grown : session.frames.Grows (session.frames.add frame).1 := grows_add frame
  refine (Watch.step_add frame).trans ?_
  have here := later ⟨(session.frames.add frame).1⟩ session.frames.all.size
    ⟨starts.1, starts.2.trans grown, starts.2.size, by simp, frame_add_size⟩
  exact @Tracked.changes_of_orderly (@watchedSessions _ ⟨(session.frames.add frame).1⟩) α _ _ here
    { session with frames := (session.frames.add frame).1 }
    ⟨grown.lt (starts.2.lt starts.1), .refl _⟩

end Stubwise
