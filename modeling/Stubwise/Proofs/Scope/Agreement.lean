import Stubwise.Infer.Session
import Stubwise.Proofs.Run
import Stubwise.Proofs.Scope.History

/-!
Storing, loading and deleting a name follow one route, though they look at the names that a frame
keeps and sends away in different orders.
-/

namespace Stubwise

open List Frame

namespace Frames

/-- Inside the frames for global names, local names stay where they are. -/
def Tidy (frames : Frames) : Prop :=
  ∀ id, frames.module id ≠ id → (frames.frame id).Apart

/-- How a name is handed on by `nonlocal`, from a frame to itself and those around it. -/
inductive Handed (frames : Frames) (name : String) : Nat → Nat → Prop where
  | here (id : Nat) : Handed frames name id id
  | outward {id outer last : Nat} (sent : name ∈ (frames.frame id).nonlocals)
      (inner : frames.parent? id = some outer) (rest : Handed frames name outer last) :
      Handed frames name id last

/-- One name in one frame is all that differs between the bindings of two lots of frames. -/
structure OnlyChanges (before after : Frames) (target : Nat) (name : String)
    (value : Option Ty) : Prop where
  size : after.all.size = before.all.size
  others : ∀ other, other ≠ target → after.frame other = before.frame other
  bindings : ∀ other, (after.frame target).bindings.get? other =
    if other = name then value else (before.frame target).bindings.get? other

section

variable {frames : Frames} {id target : Nat} {name : String}

theorem onlyChanges_bind (present : target < frames.all.size) (t : Ty) :
    OnlyChanges frames (frames.bind target name t) target name (some t) where
  size := size_bind
  others _ differ := frame_modify_of_ne differ
  bindings other := by
    unfold bind
    rw [frame_modify_self present]
    simp [Frame.bind, Table.get?_set, @eq_comm _ other]

theorem onlyChanges_unbind (present : target < frames.all.size) :
    OnlyChanges frames (frames.modify target (·.unbind name)) target name none where
  size := size_modify
  others _ differ := frame_modify_of_ne differ
  bindings other := by
    rw [frame_modify_self present]
    simp [unbind, @eq_comm _ other]

theorem sameParents_step (request : Nat × FrameOp) :
    SameParents frames.all.size frames (frames.step request) := by
  intro id known
  generalize (frames.step request).frame id = frame, @step_becomes frames request id = becomes
  cases becomes with
  | fresh new => exact absurd known (by omega)
  | declared names =>
    obtain ⟨locals, declared⟩ := (frames.frame id).foldl_declare_eq names
    rw [declared]
  | same | extended | resolved | stored | unbound => rfl

theorem Tidy.step (tidy : frames.Tidy) (request : Nat × FrameOp) : (frames.step request).Tidy := by
  intro id inner
  have stays : ¬ frames.module id = id ∨ ∀ name, ¬ (frames.frame id).Sends name := by
    by_cases known : id < frames.all.size
    · rw [(sameParents_step request).module known] at inner
      exact .inl inner
    · rw [frame_of_size_le (by omega)]
      simp [Frame.Sends]
  have before : (frames.frame id).Apart := by
    rcases stays with inside | silent
    · exact tidy id inside
    · exact fun name _ => silent name
  generalize (frames.step request).frame id = frame, @step_becomes frames request id = becomes
  cases becomes with
  | same => exact before
  | fresh _ _ apart => exact apart
  | @extended body => exact extend_apart body
  | declared names => exact before.declare names
  | resolved t known => exact before.bind t (before _ known)
  | @stored _ name _ _ found =>
    refine before.bind _ ?_
    rcases stays with inside | silent
    · exact (route_of_storeTarget found).target_stays.resolve_right inside
    · exact silent name
  | unbound => exact before

theorem tidy_after (builtins : List String) (history : List (Nat × FrameOp)) :
    (after builtins history).Tidy := by
  have start : Tidy { all := #[.builtins builtins] } := fun id _ name _ =>
    (frame_start builtins id).2 name
  have always := after_take_induction builtins history (motive := Tidy) start
    (fun _ request _ before => before.step request) history.length
  rwa [take_length] at always

theorem load_of_local (known : name ∈ (frames.frame id).locals) :
    frames.load id name = frames.loadLocal id name := by
  rw [load, if_pos (contains_iff_mem.mpr known)]

theorem load_of_nonlocal {outer : Nat} (unknown : name ∉ (frames.frame id).locals)
    (sent : name ∈ (frames.frame id).nonlocals) (inner : frames.parent? id = some outer) :
    frames.load id name = frames.load outer name := by
  rw [load, if_neg (by simpa using unknown), if_pos (contains_iff_mem.mpr sent)]
  split <;> simp_all

theorem load_of_global (unknown : name ∉ (frames.frame id).locals)
    (stays : name ∉ (frames.frame id).nonlocals) (sent : name ∈ (frames.frame id).globals)
    (known : name ∈ (frames.frame (frames.module id)).locals) :
    frames.load id name = frames.loadLocal (frames.module id) name := by
  rw [load, if_neg (by simpa using unknown), if_neg (by simpa using stays),
    if_pos (contains_iff_mem.mpr sent)]
  exact if_pos (contains_iff_mem.mpr known)

theorem deleteTarget_of_bound (here : ¬ (frames.frame id).Sends name)
    (known : name ∈ (frames.frame id).locals) (bound : (frames.frame id).bindings.contains name) :
    frames.deleteTarget id name = .ok id := by
  obtain ⟨notGlobal, notNonlocal⟩ := not_or.mp here
  rw [deleteTarget, if_neg (by simpa using notGlobal), if_neg (by simpa using notNonlocal),
    if_pos (contains_iff_mem.mpr known), if_pos bound]

theorem deleteTarget_of_nonlocal {outer : Nat} (stays : name ∉ (frames.frame id).globals)
    (sent : name ∈ (frames.frame id).nonlocals) (inner : frames.parent? id = some outer) :
    frames.deleteTarget id name = frames.deleteTarget outer name := by
  rw [deleteTarget, if_neg (by simpa using stays), if_pos (contains_iff_mem.mpr sent)]
  split <;> simp_all

theorem deleteTarget_of_global (sent : name ∈ (frames.frame id).globals) (outside : frames.module id < id) :
    frames.deleteTarget id name = frames.deleteTarget (frames.module id) name := by
  rw [deleteTarget, if_pos (contains_iff_mem.mpr sent), dif_pos outside]

theorem bind_agrees (present : target < frames.all.size) (t : Ty)
    (here : ¬ (frames.frame target).Sends name) :
    name ∈ ((frames.bind target name t).frame target).locals ∧
      (frames.bind target name t).loadLocal target name = .found t ∧
      (frames.bind target name t).deleteTarget target name = .ok target := by
  have bound : (frames.bind target name t).frame target = (frames.frame target).bind name t :=
    frame_modify_self present
  have known : name ∈ ((frames.bind target name t).frame target).locals := by
    rw [bound]
    exact NameSet.mem_insert.mpr (.inr rfl)
  refine ⟨known, ?_, deleteTarget_of_bound ?_ known ?_⟩
  · unfold loadLocal
    rw [bound]
    simp [Frame.bind]
  · rw [bound]
    exact here
  · rw [bound]
    simp [Frame.bind]

/-- What is bound where a store leads is what a load finds, and what a deletion reaches. -/
theorem Route.agrees (route : Route frames name id target) (tidy : frames.Tidy)
    (present : id < frames.all.size) (t : Ty) (once : ∀ outer ∈ frames.chain id,
      ¬ (name ∈ (frames.frame outer).globals ∧ name ∈ (frames.frame outer).nonlocals))
    (kept : ¬ (frames.frame (frames.module id)).Sends name)
    (plain : ∀ outer, Handed frames name id outer → (frames.frame outer).kind ≠ .comprehension) :
    (frames.bind target name t).load id name = .found t ∧
      (frames.bind target name t).deleteTarget id name = .ok target := by
  have same : SameParents frames.all.size frames (frames.bind target name t) := sameParents_bind name t _
  induction route with
  | @stays id here =>
    obtain ⟨known, found, deleted⟩ := bind_agrees present t here
    exact ⟨(load_of_local known).trans found, deleted⟩
  | escapes _ _ clause => exact absurd clause (plain _ (.here _))
  | @global id sent =>
    have inner : frames.module id ≠ id := by
      intro outer
      rw [outer] at kept
      exact kept (.inl sent)
    have outside : frames.module id < id := Nat.lt_of_le_of_ne module_le inner
    have notNonlocal : name ∉ (frames.frame id).nonlocals := fun both =>
      once id self_mem_chain ⟨sent, both⟩
    have notLocal : name ∉ (frames.frame id).locals := fun known =>
      tidy id inner name known (.inl sent)
    have unchanged : (frames.bind (frames.module id) name t).frame id = frames.frame id :=
      frame_modify_of_ne inner.symm
    obtain ⟨known, found, deleted⟩ := bind_agrees (by omega) t kept
    have module_same := same.module present
    refine ⟨?_, ?_⟩
    · rw [load_of_global (by rwa [unchanged]) (by rwa [unchanged]) (by rwa [unchanged])
        (by rwa [module_same]), module_same]
      exact found
    · rw [deleteTarget_of_global (by rwa [unchanged]) (by rwa [module_same]), module_same]
      exact deleted
  | @nonlocal id outer target notGlobal sent inner named rest ih =>
    have inside : frames.module id ≠ id := by
      intro outer
      rw [outer] at kept
      exact kept (.inr sent)
    have below := parent?_lt inner
    -- The next frame is not the outermost one, since that would make this one a frame for
    -- global names.
    have modules : frames.module id = frames.module outer := by
      cases within : frames.parent? outer with
      | none => exact absurd (module_of_outer inner within) inside
      | some => exact module_of_inner inner within
    have notLocal : name ∉ (frames.frame id).locals := fun known =>
      tidy id inside name known (.inr sent)
    have unchanged : (frames.bind target name t).frame id = frames.frame id :=
      frame_modify_of_ne (Nat.ne_of_gt (Nat.lt_of_le_of_lt rest.target_le below))
    have parents := same.parent? present
    have outward (last : Nat) (handed : Handed frames name outer last) :=
      plain last (.outward sent inner handed)
    have around (last : Nat) (member : last ∈ frames.chain outer) :=
      once last (chain_of_some inner ▸ mem_cons_of_mem _ member)
    obtain ⟨found, deleted⟩ := ih (by omega) around (modules ▸ kept) outward same
    refine ⟨?_, ?_⟩
    · rw [load_of_nonlocal (by rwa [unchanged]) (by rwa [unchanged]) (parents.trans inner)]
      exact found
    · rw [deleteTarget_of_nonlocal (by rwa [unchanged]) (by rwa [unchanged]) (parents.trans inner)]
      exact deleted

end

end Frames

namespace Session

variable {session : Session} {id : Nat} {name : String} {t : Ty}

theorem storeName_run :
    (storeName id name t).run.run session = match session.frames.storeTarget id name with
      | .ok target => (.ok (), { session with frames := session.frames.bind target name t })
      | .error stop => (.error stop, session) := by
  unfold storeName
  rw [Run.run_get_bind]
  cases session.frames.storeTarget id name <;> rfl

theorem deleteName_run :
    (deleteName id name).run.run session = match session.frames.deleteTarget id name with
      | .ok target =>
        (.ok (), { session with frames := session.frames.modify target (·.unbind name) })
      | .error stop => (.error stop, session) := by
  unfold deleteName
  rw [Run.run_get_bind]
  cases session.frames.deleteTarget id name <;> rfl

theorem loadName_run_found (found : session.frames.load id name = .found t) :
    (loadName id name).run.run session = (.ok t, session) := by
  unfold loadName
  rw [Run.run_get_bind, found]
  rfl

/-- Storing a name in one of the frames of a history binds it in one frame and changes nothing else;
loading it from the same frame then gives what was stored, and deleting it from there succeeds and
takes that one binding away. This is so if no frame around it declares the name both `global` and
`nonlocal`, the frame for global names declares it neither, and it is handed on to no comprehension.
A store or delete that fails changes nothing, for all names. -/
theorem store_load_delete_agree (builtins : List String) (history : List (Nat × FrameOp))
    (session : Session) (grown : session.frames = .after builtins history) (id : Nat)
    (present : id < session.frames.all.size) (name : String) (t : Ty) :
    ((∀ outer ∈ session.frames.chain id, ¬ (name ∈ (session.frames.frame outer).globals ∧
        name ∈ (session.frames.frame outer).nonlocals)) →
      ¬ (session.frames.frame (session.frames.module id)).Sends name →
      (∀ outer, session.frames.Handed name id outer →
        (session.frames.frame outer).kind ≠ .comprehension) →
      ∀ stored, (storeName id name t).run.run session = (.ok (), stored) →
        ∃ target, session.frames.OnlyChanges stored.frames target name (some t) ∧
          (loadName id name).run.run stored = (.ok t, stored) ∧
          ∃ deleted, (deleteName id name).run.run stored = (.ok (), deleted) ∧
            stored.frames.OnlyChanges deleted.frames target name none) ∧
    (∀ stop left, (storeName id name t).run.run session = (.error stop, left) → left = session) ∧
    ∀ stop left, (deleteName id name).run.run session = (.error stop, left) → left = session := by
  refine ⟨fun once kept plain stored ran => ?_, fun stop left ran => ?_, fun stop left ran => ?_⟩
  · rw [storeName_run] at ran
    cases found : session.frames.storeTarget id name with
    | error =>
      rw [found] at ran
      cases ran
    | ok target =>
      rw [found] at ran
      cases ran
      have route := Frames.route_of_storeTarget found
      have known : target < session.frames.all.size := Nat.lt_of_le_of_lt route.target_le present
      have tidy : session.frames.Tidy := grown ▸ Frames.tidy_after builtins history
      obtain ⟨loaded, deleted⟩ := route.agrees tidy present t once kept plain
      have later : target < (session.frames.bind target name t).all.size := by simpa using known
      have last := @deleteName_run { session with frames := session.frames.bind target name t } id name
      rw [deleted] at last
      exact ⟨target, Frames.onlyChanges_bind known t, loadName_run_found loaded, _, last,
        Frames.onlyChanges_unbind later⟩
  · rw [storeName_run] at ran
    split at ran <;> cases ran
    rfl
  · rw [deleteName_run] at ran
    split at ran <;> cases ran
    rfl

/-- The frames of a function inside a function inside a module. The inner one declares a name
`nonlocal` that the outer one assigns, and another one `global`. -/
def nestedFunctions : List (Nat × FrameOp) :=
  [(0, .enter .module "m" [] (by decide)),
    (1, .enter .function "f" [.assign default [.name default "n" .store] default] (by decide)),
    (2, .enter .function "g" [.nonlocal default ["n"], .global default ["v"]] (by decide))]

theorem store_load_delete_agree_nonlocal :
    let session : Session := { frames := .after ["len"] nestedFunctions }
    ∃ stored, (storeName 3 "n" .noneType).run.run session = (.ok (), stored) ∧
      ∃ target, session.frames.OnlyChanges stored.frames target "n" (some .noneType) ∧
        (loadName 3 "n").run.run stored = (.ok .noneType, stored) ∧
        ∃ deleted, (deleteName 3 "n").run.run stored = (.ok (), deleted) ∧
          stored.frames.OnlyChanges deleted.frames target "n" none := by
  intro session
  have frames : session.frames = .after ["len"] nestedFunctions := rfl
  have target : session.frames.storeTarget 3 "n" = .ok 2 := by with_unfolding_all rfl
  have ran : (storeName 3 "n" .noneType).run.run session =
      (.ok (), { session with frames := session.frames.bind 2 "n" .noneType }) := by
    rw [storeName_run, target]
  have agree := store_load_delete_agree ["len"] nestedFunctions session frames 3
    (by decide +kernel) "n" .noneType
  refine ⟨_, ran, agree.1 (by decide +kernel) ?_ ?_ _ ran⟩
  · unfold Frame.Sends
    decide +kernel
  · intro outer handed
    cases handed with
    | here => decide +kernel
    | outward sent inner rest =>
      obtain rfl : 2 = _ := Option.some.inj (inner.symm.trans (by with_unfolding_all rfl)).symm
      cases rest with
      | here => decide +kernel
      | outward sent => exact absurd sent (by decide +kernel)

end Session

end Stubwise
