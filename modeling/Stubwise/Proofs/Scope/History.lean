import Stubwise.Proofs.Scope.Frame

namespace Stubwise

open List Table

/-- What can be done in a frame. -/
inductive FrameOp where
  | enter (kind : FrameKind) (name : String) (body : List Stmt) (inner : kind ≠ .builtins)
  | comprehend (clauses : List Comprehension)
  | extend (body : List Stmt)
  | declare (names : List String)
  /-- Loads a name. A builtin that is loaded for the first time may turn out to have a type. -/
  | load (name : String) (builtin : Option Ty)
  | store (name : String) (t : Ty)
  | delete (name : String)

namespace Frames

/-- The frames after an operation. One that fails changes nothing. -/
def perform (frames : Frames) (id : Nat) : FrameOp → Frames
  | .enter kind name body _ => (frames.add (.ofBody kind name body id)).1
  | .comprehend clauses => (frames.add (.ofClauses clauses id)).1
  | .extend body => frames.modify id (·.extend body)
  | .declare names => frames.modify id fun frame => names.foldl .declare frame
  | .load name builtin =>
    match frames.load id name, builtin with
    | .unresolved root, some t => frames.bind root name t
    | _, _ => frames
  | .store name t => (frames.store id name t).toOption.getD frames
  | .delete name => (frames.delete id name).toOption.getD frames

/-- One step of a history. In a frame that is not there nothing can be done. -/
def step (frames : Frames) (request : Nat × FrameOp) : Frames :=
  if request.1 < frames.all.size then frames.perform request.1 request.2 else frames

/-- The frames that a history leads to. -/
def after (builtins : List String) (history : List (Nat × FrameOp)) : Frames :=
  history.foldl step { all := #[.builtins builtins] }

@[simp]
theorem after_append (builtins : List String) (history : List (Nat × FrameOp)) (request : Nat × FrameOp) :
    after builtins (history ++ [request]) = (after builtins history).step request := by
  simp [after]

section Cases

variable {frames : Frames} {id target : Nat} {name : String}

theorem unresolved_is_local (loaded : frames.load id name = .unresolved target) :
    name ∈ (frames.frame target).locals := by
  have at_home {id : Nat} (known : name ∈ (frames.frame id).locals)
      (found : frames.loadLocal id name = .unresolved target) :
      name ∈ (frames.frame target).locals := by
    unfold loadLocal at found
    dsimp only at found
    split at found
    · cases found
    · split at found
      · cases found
        exact known
      · cases found
  fun_induction frames.load id name with
  | case1 _ _ known => exact at_home (contains_iff_mem.mp known) loaded
  | case2 _ _ _ _ _ _ ih => exact ih loaded
  | case3 => cases loaded
  | case4 _ _ _ _ _ _ known => exact at_home (contains_iff_mem.mp known) loaded
  | case5 => cases loaded
  | case6 _ _ _ _ _ _ _ _ _ _ ih => exact ih loaded
  | case7 => cases loaded
  | case8 _ _ _ _ _ _ _ ih =>
    apply ih
    revert loaded
    cases frames.load _ name <;> simp [Loaded.askedFrom]
  | case9 => cases loaded

end Cases

/-- What one request can make of a frame. -/
inductive Becomes (frames : Frames) (request : Nat × FrameOp) (id : Nat) : Frame → Prop where
  | same : Becomes frames request id (frames.frame id)
  | fresh {frame : Frame} (new : frames.all.size ≤ id) (unbound : frame.bindings = [])
      (apart : frame.Apart) : Becomes frames request id frame
  | extended {body : List Stmt} (asked : request = (id, .extend body)) :
      Becomes frames request id ((frames.frame id).extend body)
  | declared (names : List String) :
      Becomes frames request id (names.foldl .declare (frames.frame id))
  | resolved {name : String} (t : Ty) (known : name ∈ (frames.frame id).locals) :
      Becomes frames request id ((frames.frame id).bind name t)
  | stored {origin : Nat} {name : String} {t : Ty} (asked : request = (origin, .store name t))
      (found : frames.storeTarget origin name = .ok id) :
      Becomes frames request id ((frames.frame id).bind name t)
  | unbound (name : String) : Becomes frames request id ((frames.frame id).unbind name)

section Becomes

variable {frames : Frames} {request : Nat × FrameOp} {id : Nat}

theorem becomes_added {frame : Frame} (unbound : frame.bindings = [])
    (apart : frame.Apart) : Becomes frames request id ((frames.add frame).1.frame id) := by
  rcases Nat.lt_trichotomy id frames.all.size with old | rfl | beyond
  · rw [frame_add_of_lt old]
    exact .same
  · rw [frame_add_size]
    exact .fresh (Nat.le_refl _) unbound apart
  · rw [frame_of_size_le (by simpa using Nat.succ_le_of_lt beyond)]
    exact .fresh (by omega) rfl (forall_mem_nil _)

theorem becomes_modified {target : Nat} {change : Frame → Frame}
    (changed : id = target → Becomes frames request id (change (frames.frame id))) :
    Becomes frames request id ((frames.modify target change).frame id) := by
  by_cases present : target < frames.all.size
  · by_cases here : id = target
    · subst here
      rw [frame_modify_self present]
      exact changed rfl
    · rw [frame_modify_of_ne here]
      exact .same
  · rw [modify_of_size_le (by omega)]
    exact .same

theorem step_becomes : Becomes frames request id ((frames.step request).frame id) := by
  obtain ⟨origin, op⟩ := request
  unfold step
  split
  case isFalse => exact .same
  case isTrue =>
  cases op with
  | enter _ _ body =>
    exact becomes_added rfl (Frame.extend_apart body)
  | comprehend =>
    refine becomes_added rfl fun name _ => ?_
    simp [Frame.Sends, Frame.ofClauses]
  | extend =>
    refine becomes_modified fun here => ?_
    exact .extended (by rw [here])
  | declare names => exact becomes_modified fun _ => .declared names
  | load name builtin =>
    simp only [perform]
    split
    · rename_i root t loaded _
      refine becomes_modified fun here => ?_
      exact .resolved t (here ▸ unresolved_is_local loaded)
    · exact .same
  | store name =>
    simp only [perform, store]
    cases found : frames.storeTarget origin name with
    | error => exact .same
    | ok => exact becomes_modified fun here => .stored rfl (here ▸ found)
  | delete name =>
    simp only [perform, delete]
    cases found : frames.deleteTarget origin name with
    | error => exact .same
    | ok => exact becomes_modified fun _ => .unbound name

end Becomes

end Frames

namespace Frame

/-- A frame binds only names that are local to it, and they stay there. -/
structure Settled (frame : Frame) : Prop where
  local_of_bound : ∀ name, frame.bindings.contains name = true → name ∈ frame.locals
  apart : frame.Apart

variable {frame : Frame} {name : String}

section Settled

variable (settled : frame.Settled)
include settled

theorem Settled.extend {body : List Stmt}
    (free : ∀ name, frame.bindings.contains name = true → ¬ (frame.extend body).Sends name) :
    (frame.extend body).Settled where
  local_of_bound name bound := by
    have known : frame.bindings.contains name = true := bound
    exact mem_extend_locals.mpr ⟨.inl (settled.local_of_bound name known), free name known⟩
  apart := extend_apart body

theorem Settled.declare (names : List String) : (names.foldl declare frame).Settled where
  local_of_bound name bound := by
    obtain ⟨locals, declared⟩ := frame.foldl_declare_eq names
    rw [declared] at bound
    exact (mem_foldl_declare_locals names).mpr (.inl (settled.local_of_bound name bound))
  apart := settled.apart.declare names

theorem Settled.bind (t : Ty) (here : ¬ frame.Sends name) : (frame.bind name t).Settled where
  local_of_bound other bound := by
    simp only [Frame.bind, Table.contains_set, Bool.or_eq_true, beq_iff_eq] at bound
    rcases bound with rfl | old
    · simp [Frame.bind]
    · exact NameSet.mem_insert.mpr (.inl (settled.local_of_bound other old))
  apart := settled.apart.bind t here

theorem Settled.unbind (name : String) : (frame.unbind name).Settled where
  local_of_bound other bound := settled.local_of_bound other (contains_of_erase bound)
  apart := settled.apart

end Settled

end Frame

namespace Frames

/-- What is meant to hold of frames: none has a binding for a name that it sends elsewhere, and what
is bound in a frame other than that of the builtins is local to it. -/
def Consistent (frames : Frames) : Prop :=
  ∀ id name, (frames.frame id).bindings.contains name = true →
    ¬ (frames.frame id).Sends name ∧ (id ≠ 0 → name ∈ (frames.frame id).locals)

/-- An operation that gives a binding to a name in a frame that sends it elsewhere, or sends a name
elsewhere that has one. -/
def Clashes (frames : Frames) : Nat × FrameOp → Prop
  | (id, .extend body) => ∃ name, (frames.frame id).bindings.contains name = true ∧
      (name ∈ (Stmt.redirectionsAll body).globals ∨ name ∈ (Stmt.redirectionsAll body).nonlocals)
  | (id, .store name _) => ∃ target, frames.storeTarget id name = .ok target ∧
      (frames.frame target).Sends name
  | _ => False

section

variable {frames : Frames} {request : Nat × FrameOp}

theorem Consistent.of_settled (settled : ∀ id, (frames.frame id).Settled) : frames.Consistent := by
  intro id name bound
  have known := (settled id).local_of_bound name bound
  exact ⟨(settled id).apart name known, fun _ => known⟩

theorem settled_step (settled : ∀ id, (frames.frame id).Settled)
    (harmless : ¬ frames.Clashes request) (id : Nat) :
    ((frames.step request).frame id).Settled := by
  have before := settled id
  generalize (frames.step request).frame id = frame, @step_becomes frames request id = becomes
  cases becomes with
  | same => exact before
  | fresh _ unbound apart =>
    refine ⟨fun name bound => ?_, apart⟩
    rw [unbound] at bound
    cases bound
  | extended asked =>
    refine before.extend fun name bound sends => ?_
    rcases Frame.extend_sends.mp sends with old | new
    · exact before.apart name (before.local_of_bound name bound) old
    · exact harmless (asked ▸ ⟨name, bound, new⟩)
  | declared names => exact before.declare names
  | resolved t known => exact before.bind t (before.apart _ known)
  | stored asked found =>
    refine before.bind _ fun sends => ?_
    exact harmless (asked ▸ ⟨id, found, sends⟩)
  | unbound name => exact before.unbind name

theorem Clashes.present (clash : frames.Clashes request) : request.1 < frames.all.size := by
  obtain ⟨id, op⟩ := request
  refine Nat.lt_of_not_le fun beyond => ?_
  have empty := frame_of_size_le beyond
  cases op with
  | extend =>
    obtain ⟨name, bound, _⟩ := clash
    rw [empty] at bound
    cases bound
  | store =>
    obtain ⟨target, found, sends⟩ := clash
    cases route_of_storeTarget found with
    | global sent => simp [empty] at sent
    | nonlocal _ sent => simp [empty] at sent
    | stays here => exact here sends
    | escapes _ _ clause => simp [empty] at clause
  | enter | comprehend | declare | load | delete => exact clash

theorem not_consistent_step (clash : frames.Clashes request) : ¬ (frames.step request).Consistent := by
  intro consistent
  have present := clash.present
  obtain ⟨id, op⟩ := request
  unfold step at consistent
  rw [if_pos present] at consistent
  cases op with
  | extend =>
    obtain ⟨name, bound, sent⟩ := clash
    have here := consistent id name
    simp only [perform, frame_modify_self present] at here
    exact (here bound).1 (Frame.extend_sends.mpr (.inr sent))
  | store name =>
    obtain ⟨target, found, sends⟩ := clash
    by_cases known : target < frames.all.size
    · have here := consistent target name
      simp only [perform, store, found, Except.map, Except.toOption, Option.getD_some, bind,
        frame_modify_self known] at here
      exact (here (by simp [Frame.bind])).1 sends
    · rw [frame_of_size_le (by omega)] at sends
      simp [Frame.Sends] at sends
  | enter | comprehend | declare | load | delete => exact clash

/-- One request keeps every bound name declared. -/
theorem declares_step (known : ∀ id name, (frames.frame id).bindings.contains name = true →
      (frames.frame id).declares name = true)
    (id : Nat) (name : String) :
    ((frames.step request).frame id).bindings.contains name = true →
      ((frames.step request).frame id).declares name = true := by
  have before := known id name
  generalize (frames.step request).frame id = frame, @step_becomes frames request id = becomes
  rw [Frame.declares_iff] at before ⊢
  cases becomes with
  | same => exact before
  | fresh _ unbound =>
    intro bound
    rw [unbound] at bound
    cases bound
  | @extended body =>
    intro bound
    by_cases sent : ((frames.frame id).extend body).Sends name
    · exact .inr sent
    · rcases before bound with here | old
      · exact .inl (Frame.mem_extend_locals.mpr ⟨.inl here, sent⟩)
      · exact .inr (Frame.extend_sends.mpr (.inl old))
  | declared names =>
    obtain ⟨locals, declared⟩ := (frames.frame id).foldl_declare_eq names
    intro bound
    rw [Frame.mem_foldl_declare_locals, declared] at *
    exact (before bound).imp .inl fun sent => sent
  | resolved | stored =>
    intro bound
    simp only [Frame.bind, Table.contains_set, Bool.or_eq_true, beq_iff_eq] at bound
    rcases bound with rfl | old
    · exact .inl (NameSet.mem_insert.mpr (.inr rfl))
    · exact (before old).imp (NameSet.mem_insert.mpr <| .inl ·) fun sent => sent
  | unbound => exact fun bound => before (contains_of_erase bound)

end

section History

variable (builtins : List String) (history : List (Nat × FrameOp))

theorem after_take_induction {motive : Frames → Prop} (start : motive { all := #[.builtins builtins] })
    (next : ∀ count request, history[count]? = some request → motive (after builtins (history.take count)) →
        motive ((after builtins (history.take count)).step request)) (count : Nat) :
    motive (after builtins (history.take count)) := by
  induction count with
  | zero => exact start
  | succ count ih =>
    rw [take_add_one]
    cases found : history[count]? with
    | none => simpa using ih
    | some request =>
      rw [Option.toList_some, after_append]
      exact next count request found ih

theorem frame_start (id : Nat) :
    (frame { all := #[.builtins builtins] } id).bindings = [] ∧
      ∀ name, ¬ (frame { all := #[.builtins builtins] } id).Sends name := by
  cases id with
  | zero => simp [frame, Frame.builtins, Frame.Sends]
  | succ =>
    rw [frame_of_size_le (by simp)]
    simp [Frame.Sends]

/-- After every history each binding is for a name that its frame knows of. That names which a frame
sends elsewhere have no binding in it, and that bound names are local, holds at all times just if
no operation clashes. -/
theorem consistent_iff_no_clash :
    (∀ id name, ((after builtins history).frame id).bindings.contains name = true →
      ((after builtins history).frame id).declares name = true) ∧
    ((∀ count, (after builtins (history.take count)).Consistent) ↔
      ∀ count request, history[count]? = some request →
        ¬ (after builtins (history.take count)).Clashes request) := by
  have start := frame_start builtins
  refine ⟨?_, fun consistent count request found clash => ?_, fun harmless count => ?_⟩
  · have known := after_take_induction builtins history
      (motive := fun frames => ∀ id name, (frames.frame id).bindings.contains name = true →
        (frames.frame id).declares name = true)
      (fun id name bound => by simp [(start id).1] at bound)
      (fun _ _ _ before => declares_step before) history.length
    rwa [take_length] at known
  · have after_clash := consistent (count + 1)
    rw [take_add_one, found, Option.toList_some, after_append] at after_clash
    exact not_consistent_step clash after_clash
  · refine .of_settled (after_take_induction builtins history
      (motive := fun frames => ∀ id, (frames.frame id).Settled) (fun id => ⟨?_, ?_⟩)
      (fun count request found before => settled_step before (harmless count request found)) count)
    · intro name bound
      simp [(start id).1] at bound
    · exact fun name _ => (start id).2 name

end History

/-- A module binds a name, and code that is added later declares it `global`: the binding is still
there, but the name is no longer local, and so nobody finds it. -/
theorem global_hides_binding :
    let frames := after [] [(0, .enter .module "m" [] (by decide)), (1, .store "x" .any),
      (1, .extend [.global default ["x"]])]
    ¬ frames.Consistent ∧ frames.load 1 "x" = .unbound (frames.undefinedName 0 "x") := by
  refine ⟨fun consistent => ?_, by with_unfolding_all rfl⟩
  have bound := consistent 1 "x" (by decide +kernel)
  exact bound.1 (.inl (by decide +kernel))

end Frames

end Stubwise
