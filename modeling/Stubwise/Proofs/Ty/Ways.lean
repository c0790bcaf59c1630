import Mathlib.Data.Fintype.Pigeonhole
import Mathlib.Data.List.Perm.Subperm
import Mathlib.Logic.Relation
import Stubwise.Proofs.Ty.ObjectFree

/-!
The ways that applying a substitution takes through a type with instances: from a variable into its
image, and from an instance into its class and its attributes.
-/

namespace Stubwise

open List

namespace Subst

variable {subst : Subst} {t image : Ty} {name : String} {passed : List String}

/-- The instances to which a type leads through images, below the variables in `passed`. A way
through images passes no variable twice. -/
inductive Reaches (subst : Subst) : List String → Ty → Nat × Ty → Prop where
  | object {passed : List String} {t base : Ty} {id : Nat} (occurs : .object id base ∈ t.leaves) :
      Reaches subst passed t (id, base)
  | image {passed : List String} {t image : Ty} {name : String} {bound : Option Ty}
      {node : Nat × Ty} (occurs : .var name bound ∈ t.leaves)
      (found : subst.imageOf passed name = some image)
      (rest : Reaches subst (name :: passed) image node) : Reaches subst passed t node

structure Passes (subst : Subst) (passed : List String) : Prop where
  nodup : passed.Nodup
  subset : passed ⊆ Table.keys subst

theorem Passes.cons (passes : subst.Passes passed) (found : subst.imageOf passed name = some image) :
    subst.Passes (name :: passed) where
  nodup := by
    refine nodup_cons.mpr ⟨fun again => ?_, passes.nodup⟩
    simp [imageOf, again] at found
  subset := cons_subset.mpr ⟨mem_map.mpr ⟨_, mem_of_imageOf found, rfl⟩, passes.subset⟩

theorem Passes.length_le (passes : subst.Passes passed) : passed.length ≤ subst.length := by
  simpa [Table.keys] using (subperm_of_subset passes.nodup passes.subset).length_le

/-- The instances that applying a substitution to a type comes to before it enters one of them. The
empty substitution does not look into types other than classes as values. -/
inductive Meets (subst : Subst) : Ty → Nat × Ty → Prop where
  | object (id : Nat) (base : Ty) : Meets subst (.object id base) (id, base)
  | type {inner : Ty} {node : Nat × Ty} (met : Meets subst inner node) :
      Meets subst (.type inner) node
  | inside {t : Ty} {node : Nat × Ty} (filled : subst ≠ []) (reaches : subst.Reaches [] t node) :
      Meets subst t node

theorem meets_iff (filled : subst ≠ []) {node : Nat × Ty} :
    subst.Meets t node ↔ subst.Reaches [] t node := by
  refine ⟨fun met => ?_, .inside filled⟩
  induction met with
  | object => exact .object (mem_singleton_self _)
  | type _ ih =>
    cases ih with
    | object occurs => exact .object occurs
    | image occurs found rest => exact .image occurs found rest
  | inside _ reaches => exact reaches

theorem not_reaches_of_objectFree (images : subst.objectFree) {node : Nat × Ty}
    (free : t.objectFree) : ¬ subst.Reaches passed t node := by
  intro reaches
  induction reaches with
  | object occurs => exact Ty.object_not_mem_leaves free occurs
  | image _ found _ ih => exact ih (objectFree_of_mem images (mem_of_imageOf found))

end Subst

namespace Instances

/-- Copying one instance comes to another one in its class or in one of its attributes. -/
def Leads (instances : Instances) (subst : Subst) (node next : Nat × Ty) : Prop :=
  subst.Meets node.2 next ∨ ∃ entry ∈ instances.attrs node.1, subst.Meets entry.2 next

/-- Every way on from an instance ends after fewer steps than given. -/
def EndsWithin (instances : Instances) (subst : Subst) : Nat → Nat × Ty → Prop
  | 0, _ => False
  | bound + 1, node =>
    ∀ next, instances.Leads subst node next → instances.EndsWithin subst bound next

/-- No way on from an instance is endless. -/
def Bounded (instances : Instances) (subst : Subst) (node : Nat × Ty) : Prop :=
  Acc (fun next node => instances.Leads subst node next) node

/-- The instances in a type are there, and each has the class that goes with its number. -/
def Owns (instances : Instances) (classOf : Nat → Ty) (t : Ty) : Prop :=
  ∀ id base, .object id base ∈ t.leaves → id < instances.attributes.size ∧ base = classOf id

/-- An instance has one class, wherever it is mentioned. -/
structure Coherent (instances : Instances) (classOf : Nat → Ty) (subst : Subst) : Prop where
  classes : ∀ id < instances.attributes.size, instances.Owns classOf (classOf id)
  attributes : ∀ id, ∀ entry ∈ instances.attrs id, instances.Owns classOf entry.2
  images : ∀ entry ∈ subst, instances.Owns classOf entry.2

variable {instances : Instances} {classOf : Nat → Ty} {subst : Subst} {t : Ty}
  {node next : Nat × Ty}

theorem Bounded.of_endsWithin {bound : Nat} (ends : instances.EndsWithin subst bound node) :
    instances.Bounded subst node := by
  induction bound generalizing node with
  | zero => exact ends.elim
  | succ bound ih => exact .intro node fun next leads => ih (ends next leads)

section

variable (coherent : instances.Coherent classOf subst)
include coherent

theorem Coherent.owns_reached {passed : List String}
    (own : instances.Owns classOf t) (reaches : subst.Reaches passed t node) :
    node.1 < instances.attributes.size ∧ node.2 = classOf node.1 := by
  induction reaches with
  | object occurs => exact own _ _ occurs
  | image _ found _ ih => exact ih (coherent.images _ (Subst.mem_of_imageOf found))

theorem Coherent.owns_met (own : instances.Owns classOf t) (met : subst.Meets t node) :
    node.1 < instances.attributes.size ∧ node.2 = classOf node.1 := by
  induction met with
  | object id base => exact own id base (mem_singleton_self _)
  | type _ ih => exact ih own
  | inside _ reaches => exact coherent.owns_reached own reaches

theorem Coherent.owns_next (there : node.1 < instances.attributes.size) (same : node.2 = classOf node.1)
    (leads : instances.Leads subst node next) :
    next.1 < instances.attributes.size ∧ next.2 = classOf next.1 := by
  rcases leads with met | ⟨entry, listed, met⟩
  · exact coherent.owns_met (same ▸ coherent.classes node.1 there) met
  · exact coherent.owns_met (coherent.attributes node.1 entry listed) met

end

theorem exists_way_of_not_endsWithin {bound : Nat} (endless : ¬ instances.EndsWithin subst bound node) :
    ∃ way : Nat → Nat × Ty, way 0 = node ∧
      ∀ place < bound, instances.Leads subst (way place) (way (place + 1)) := by
  induction bound generalizing node with
  | zero => exact ⟨fun _ => node, rfl, fun _ below => absurd below (by omega)⟩
  | succ bound ih =>
    simp only [EndsWithin, not_forall] at endless
    obtain ⟨next, leads, onward⟩ := endless
    obtain ⟨way, start, steps⟩ := ih onward
    refine ⟨Nat.rec node fun place _ => way place, rfl, fun place below => ?_⟩
    cases place with
    | zero =>
      subst start
      exact leads
    | succ place => exact steps place (by omega)

theorem not_bounded_of_cycle (cycle : Relation.TransGen (instances.Leads subst) node node) :
    ¬ instances.Bounded subst node := by
  have irreflexive {α : Type} {r : α → α → Prop} {a : α} (acc : Acc r a) : ¬ r a a := by
    induction acc with
    | intro a _ ih => exact fun again => ih a again again
  intro bounded
  exact irreflexive bounded.transGen (Relation.transGen_swap.mpr cycle)

/-- A way that is longer than there are instances comes to one of them again. So where no way is
endless, the number of instances bounds all of them. -/
theorem Bounded.endsWithin (coherent : instances.Coherent classOf subst)
    (there : node.1 < instances.attributes.size) (same : node.2 = classOf node.1)
    (bounded : instances.Bounded subst node) {bound : Nat}
    (enough : instances.attributes.size ≤ bound) : instances.EndsWithin subst bound node := by
  by_contra endless
  obtain ⟨way, rfl, steps⟩ := exists_way_of_not_endsWithin endless
  have owned (place : Nat) (below : place ≤ bound) :
      (way place).1 < instances.attributes.size ∧ (way place).2 = classOf (way place).1 := by
    induction place with
    | zero => exact ⟨there, same⟩
    | succ place ih =>
      obtain ⟨there, same⟩ := ih (by omega)
      exact coherent.owns_next there same (steps place (by omega))
  have onward (first last : Nat) (before : first < last) (below : last ≤ bound) :
      Relation.TransGen (instances.Leads subst) (way first) (way last) := by
    induction last with
    | zero => exact absurd before (by omega)
    | succ last ih =>
      rcases Nat.lt_succ_iff_lt_or_eq.mp before with earlier | rfl
      · exact (ih earlier (by omega)).tail (steps last below)
      · exact .single (steps first below)
  obtain ⟨first, last, different, again⟩ := Fintype.exists_ne_map_eq_of_card_lt
    (fun place : Fin (bound + 1) =>
      (⟨(way place).1, (owned place (by omega)).1⟩ : Fin instances.attributes.size))
    (by simpa [Nat.lt_succ_iff] using enough)
  have number : (way first).1 = (way last).1 := congrArg Fin.val again
  have meeting : way first = way last := Prod.ext number (by
    rw [(owned first (by omega)).2, (owned last (by omega)).2, number])
  have reached (place : Nat) (below : place ≤ bound) : instances.Bounded subst (way place) := by
    rcases Nat.eq_zero_or_pos place with rfl | later
    · exact bounded
    · exact bounded.inv_of_transGen (Relation.transGen_swap.mpr (onward 0 place later below))
  rcases Nat.lt_or_gt_of_ne (Fin.val_ne_of_ne different) with before | before
  · have cycle := onward first last before (by omega)
    rw [← meeting] at cycle
    exact not_bounded_of_cycle cycle (reached first (by omega))
  · have cycle := onward last first before (by omega)
    rw [meeting] at cycle
    exact not_bounded_of_cycle cycle (reached last (by omega))

end Instances

end Stubwise
