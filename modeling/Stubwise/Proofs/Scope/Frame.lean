import Stubwise.Scope.Hoist

namespace Stubwise

open List

variable {frame : Frame} {body : List Stmt} {outer target : Nat} {name : String}

namespace NameSet

variable {set names : List String} {name other : String}

@[simp]
theorem mem_insert : other ∈ insert set name ↔ other ∈ set ∨ other = name := by
  unfold insert
  split
  · rename_i known
    have member : name ∈ set := by simpa using known
    constructor
    · exact .inl
    · rintro (listed | rfl)
      · exact listed
      · exact member
  · simp

@[simp]
theorem mem_insertAll : other ∈ insertAll set names ↔ other ∈ set ∨ other ∈ names := by
  unfold insertAll
  induction names generalizing set with
  | nil => simp
  | cons _ _ ih => simp [ih, or_assoc]

@[simp]
theorem mem_remove : other ∈ remove set names ↔ other ∈ set ∧ other ∉ names := by
  simp [remove]

end NameSet

namespace Table

variable {α : Type} {table : Table α} {name other : String} {value : α}

@[simp]
theorem get?_erase : (table.erase name).get? other = if name == other then none else table.get? other := by
  unfold erase
  induction table with
  | nil => simp [get?]
  | cons => grind [get?]

@[simp]
theorem contains_nil : contains ([] : Table α) name = false := rfl

@[simp]
theorem contains_set : (table.set name value).contains other = (name == other || table.contains other) := by
  unfold contains
  rw [get?_set]
  cases name == other <;> simp

theorem contains_of_erase (kept : (table.erase name).contains other) : table.contains other = true := by
  unfold contains at kept ⊢
  rw [get?_erase] at kept
  split at kept
  · cases kept
  · exact kept

end Table

namespace Frame

/-- The frame says that a name lives elsewhere. -/
def Sends (frame : Frame) (name : String) : Prop :=
  name ∈ frame.globals ∨ name ∈ frame.nonlocals

def Apart (frame : Frame) : Prop :=
  ∀ name ∈ frame.locals, ¬ frame.Sends name

variable {frame : Frame} {name other : String}

theorem declares_iff : frame.declares name = true ↔ name ∈ frame.locals ∨ frame.Sends name := by
  simp [declares, Sends, or_assoc]

theorem mem_declare_locals :
    other ∈ (frame.declare name).locals ↔ other ∈ frame.locals ∨ other = name ∧ ¬ frame.Sends name := by
  unfold declare
  split
  · rename_i sent
    have elsewhere : frame.Sends name := by simpa [Sends] using sent
    simp [elsewhere]
  · rename_i stays
    have here : ¬ frame.Sends name := by simpa [Sends] using stays
    simp [here]

theorem declare_eq (frame : Frame) (name : String) :
    ∃ locals, frame.declare name = { frame with locals } := by
  unfold declare
  split
  · exact ⟨frame.locals, rfl⟩
  · exact ⟨_, rfl⟩

theorem extend_sends :
    (frame.extend body).Sends name ↔ frame.Sends name ∨ name ∈ (Stmt.redirectionsAll body).globals ∨
      name ∈ (Stmt.redirectionsAll body).nonlocals := by
  simp only [Sends, extend, NameSet.mem_insertAll]
  exact or_or_or_comm

theorem mem_extend_locals :
    name ∈ (frame.extend body).locals ↔ (name ∈ frame.locals ∨ name ∈ Stmt.boundNamesAll body) ∧
        ¬ (frame.extend body).Sends name := by
  simp [Sends, extend, and_assoc]

theorem declares_extend (bound : name ∈ Stmt.boundNamesAll body) :
    (frame.extend body).declares name = true := by
  rw [declares_iff, mem_extend_locals]
  by_cases sent : (frame.extend body).Sends name
  · exact .inr sent
  · exact .inl ⟨.inr bound, sent⟩

theorem extend_apart (body : List Stmt) : (frame.extend body).Apart :=
  fun _ member => (mem_extend_locals.mp member).2

theorem Apart.bind (apart : frame.Apart) (t : Ty) (here : ¬ frame.Sends name) :
    (frame.bind name t).Apart := by
  intro other member
  rcases NameSet.mem_insert.mp member with old | rfl
  · exact apart other old
  · exact here

theorem foldl_declare_eq (frame : Frame) (names : List String) :
    ∃ locals, names.foldl declare frame = { frame with locals } := by
  induction names generalizing frame with
  | nil => exact ⟨frame.locals, rfl⟩
  | cons name _ ih =>
    obtain ⟨first, declared⟩ := frame.declare_eq name
    obtain ⟨locals, others⟩ := ih (frame.declare name)
    refine ⟨locals, ?_⟩
    rw [foldl_cons, others, declared]

theorem foldl_declare_sends (names : List String) :
    (names.foldl declare frame).Sends name ↔ frame.Sends name := by
  obtain ⟨locals, declared⟩ := frame.foldl_declare_eq names
  rw [declared]
  rfl

theorem mem_foldl_declare_locals (names : List String) :
    name ∈ (names.foldl declare frame).locals ↔ name ∈ frame.locals ∨ name ∈ names ∧ ¬ frame.Sends name := by
  induction names generalizing frame with
  | nil => simp
  | cons first _ ih =>
    have sends := @foldl_declare_sends frame name [first]
    rw [foldl_cons, foldl_nil] at sends
    rw [foldl_cons, ih, mem_declare_locals, sends]
    grind

theorem Apart.declare (apart : frame.Apart) (names : List String) : (names.foldl declare frame).Apart := by
  intro name member
  rw [foldl_declare_sends]
  rcases (mem_foldl_declare_locals names).mp member with old | ⟨_, here⟩
  · exact apart name old
  · exact here

end Frame

namespace Frames

variable {frames : Frames} {id other : Nat} {change : Frame → Frame}

@[simp]
theorem size_modify : (frames.modify id change).all.size = frames.all.size := by
  simp [modify]

@[simp]
theorem size_bind {t : Ty} :
    (frames.bind id name t).all.size = frames.all.size :=
  size_modify

@[simp]
theorem size_add : (frames.add frame).1.all.size = frames.all.size + 1 := by
  simp [add]

theorem frame_modify_self (present : id < frames.all.size) :
    (frames.modify id change).frame id = change (frames.frame id) := by
  simp only [frame, modify, Array.getD_eq_getD_getElem?, Array.getElem?_modify, if_true,
    Array.getElem?_eq_getElem present, Option.map_some, Option.getD_some]

theorem frame_modify_of_ne (differ : other ≠ id) :
    (frames.modify id change).frame other = frames.frame other := by
  have away : ¬ id = other := fun same => differ same.symm
  simp [frame, modify, Array.getElem?_modify, away]

theorem modify_of_size_le (beyond : frames.all.size ≤ id) : frames.modify id change = frames := by
  unfold modify
  congr 1
  apply Array.ext_getElem?
  intro place
  rw [Array.getElem?_modify]
  split
  · rename_i same
    subst same
    simp [beyond]
  · rfl

theorem frame_add_size : (frames.add frame).1.frame frames.all.size = frame := by
  simp [Frames.frame, add]

theorem frame_add_of_lt (known : other < frames.all.size) :
    (frames.add frame).1.frame other = frames.frame other := by
  have old : ¬ other = frames.all.size := Nat.ne_of_lt known
  simp [Frames.frame, add, Array.getElem?_push, old]

theorem frame_of_size_le (beyond : frames.all.size ≤ id) : frames.frame id = {} := by
  simp [frame, beyond]

theorem chain_of_none (outermost : frames.parent? id = none) : frames.chain id = [id] := by
  rw [chain]
  split
  · rfl
  · simp_all

theorem chain_of_some (inner : frames.parent? id = some other) :
    frames.chain id = id :: frames.chain other := by
  rw [chain]
  split
  · simp_all
  · rename_i outer found
    rw [inner] at found
    cases found
    rfl

theorem self_mem_chain : id ∈ frames.chain id := by
  cases found : frames.parent? id with
  | none => simp [chain_of_none found]
  | some => simp [chain_of_some found]

theorem chain_ne_nil : frames.chain id ≠ [] := ne_nil_of_mem self_mem_chain

theorem le_of_mem_chain (member : other ∈ frames.chain id) : other ≤ id := by
  induction id using Nat.strongRecOn with
  | ind id ih =>
    cases found : frames.parent? id with
    | none =>
      rw [chain_of_none found] at member
      exact Nat.le_of_eq (mem_singleton.mp member)
    | some outer =>
      rw [chain_of_some found] at member
      rcases mem_cons.mp member with rfl | above
      · omega
      · have below := parent?_lt found
        exact Nat.le_trans (ih outer below above) (Nat.le_of_lt below)

theorem module_of_outermost (outermost : frames.parent? id = none) : frames.module id = id := by
  simp [module, chain_of_none outermost]

theorem module_of_outer (inner : frames.parent? id = some outer)
    (outermost : frames.parent? outer = none) : frames.module id = id := by
  simp [module, chain_of_some inner, chain_of_none outermost]

theorem module_of_inner {next : Nat} (inner : frames.parent? id = some outer)
    (within : frames.parent? outer = some next) : frames.module id = frames.module outer := by
  have nonempty : (frames.chain next).reverse ≠ [] := by simp [chain_ne_nil]
  obtain ⟨last, rest, reversed⟩ := exists_cons_of_ne_nil nonempty
  have two : (frames.chain outer).reverse = last :: (rest ++ [outer]) := by
    rw [chain_of_some within, reverse_cons, reversed]
    rfl
  have three : (frames.chain id).reverse = last :: (rest ++ [outer] ++ [id]) := by
    rw [chain_of_some inner, reverse_cons, two]
    rfl
  unfold module
  rw [two, three]
  cases rest <;> rfl

theorem module_mem_chain : frames.module id ∈ frames.chain id := by
  induction id using Nat.strongRecOn with
  | ind id ih =>
    cases inner : frames.parent? id with
    | none =>
      rw [module_of_outermost inner]
      exact self_mem_chain
    | some outer =>
      cases within : frames.parent? outer with
      | none =>
        rw [module_of_outer inner within]
        exact self_mem_chain
      | some =>
        rw [module_of_inner inner within, chain_of_some inner]
        exact mem_cons_of_mem _ (ih outer (parent?_lt inner))

theorem module_le : frames.module id ≤ id := le_of_mem_chain module_mem_chain

@[simp]
theorem module_module : frames.module (frames.module id) = frames.module id := by
  induction id using Nat.strongRecOn with
  | ind id ih =>
    cases inner : frames.parent? id with
    | none => rw [module_of_outermost inner, module_of_outermost inner]
    | some outer =>
      cases within : frames.parent? outer with
      | none => rw [module_of_outer inner within, module_of_outer inner within]
      | some =>
        rw [module_of_inner inner within]
        exact ih outer (parent?_lt inner)

def SameParents (bound : Nat) (before after : Frames) : Prop :=
  ∀ id < bound, (after.frame id).parent = (before.frame id).parent

section SameParents

variable {bound : Nat} {before after : Frames} (same : SameParents bound before after)
include same

theorem SameParents.parent? (known : id < bound) : after.parent? id = before.parent? id := by
  simp only [Frames.parent?, same id known]

theorem SameParents.chain (known : id < bound) : after.chain id = before.chain id := by
  induction id using Nat.strongRecOn with
  | ind id ih =>
    have here := same.parent? known
    cases found : before.parent? id with
    | none => rw [chain_of_none found, chain_of_none (here.trans found)]
    | some outer =>
      have below := parent?_lt found
      rw [chain_of_some found, chain_of_some (here.trans found), ih outer below (by omega)]

theorem SameParents.module (known : id < bound) : after.module id = before.module id := by
  unfold Frames.module
  rw [same.chain known]

end SameParents

theorem sameParents_modify (stays : ∀ frame, (change frame).parent = frame.parent) (bound : Nat) :
    SameParents bound frames (frames.modify id change) := by
  intro other _
  by_cases present : id < frames.all.size
  · by_cases same : other = id
    · rw [same, frame_modify_self present, stays]
    · rw [frame_modify_of_ne same]
  · rw [modify_of_size_le (by omega)]

theorem sameParents_bind (name : String) (t : Ty) (bound : Nat) :
    SameParents bound frames (frames.bind id name t) :=
  @sameParents_modify frames id (·.bind name t) (fun _ => rfl) bound

/-- How storing a name in a frame leads to the frame that binds it. -/
inductive Route (frames : Frames) (name : String) : Nat → Nat → Prop where
  | global {id : Nat} (sent : name ∈ (frames.frame id).globals) :
      Route frames name id (frames.module id)
  | nonlocal {id outer target : Nat} (stays : name ∉ (frames.frame id).globals)
      (sent : name ∈ (frames.frame id).nonlocals) (inner : frames.parent? id = some outer)
      (named : (frames.frame outer).kind ≠ .builtins) (rest : Route frames name outer target) :
      Route frames name id target
  | stays {id : Nat} (here : ¬ (frames.frame id).Sends name)
      (own : name ∈ (frames.frame id).locals ∨ (frames.frame id).kind ≠ .comprehension) :
      Route frames name id id
  | escapes {id target : Nat} (here : ¬ (frames.frame id).Sends name)
      (new : name ∉ (frames.frame id).locals)
      (clause : (frames.frame id).kind = .comprehension) (outside : frames.escape id < id)
      (rest : Route frames name (frames.escape id) target) : Route frames name id target

/-- A store comes to its target by a route. -/
theorem route_of_storeTarget
    (found : frames.storeTarget id name = .ok target) : Route frames name id target := by
  induction id using Nat.strongRecOn with
  | ind id ih =>
    unfold storeTarget at found
    simp only [contains_iff_mem, beq_iff_eq] at found
    split at found
    · rename_i sent
      cases found
      exact .global sent
    rename_i notGlobal
    split at found
    · rename_i sent
      split at found
      · cases found
      · rename_i outer inner
        split at found
        · cases found
        · rename_i named
          exact .nonlocal notGlobal sent inner named (ih outer (parent?_lt inner) found)
    rename_i notNonlocal
    have here : ¬ (frames.frame id).Sends name := not_or.mpr ⟨notGlobal, notNonlocal⟩
    split at found
    · rename_i known
      cases found
      exact .stays here (.inl known)
    rename_i new
    split at found
    · rename_i clause
      split at found
      · rename_i outside
        exact .escapes here new clause outside (ih _ outside found)
      · cases found
    · rename_i named
      cases found
      exact .stays here (.inr named)

theorem Route.target_stays (route : Route frames name id target) :
    ¬ (frames.frame target).Sends name ∨ frames.module target = target := by
  induction route with
  | global => exact .inr module_module
  | nonlocal _ _ _ _ _ ih => exact ih
  | stays here => exact .inl here
  | escapes _ _ _ _ _ ih => exact ih

theorem Route.target_le (route : Route frames name id target) : target ≤ id := by
  induction route with
  | global => exact module_le
  | nonlocal _ _ inner _ _ ih => exact Nat.le_trans ih (Nat.le_of_lt (parent?_lt inner))
  | stays => omega
  | escapes _ _ _ outside _ ih => omega

end Frames

end Stubwise
