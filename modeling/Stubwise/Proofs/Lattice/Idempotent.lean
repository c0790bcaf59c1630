import Stubwise.Proofs.Lattice.Instantiation
import Stubwise.Proofs.Lattice.NormalForm

namespace Stubwise

open List Registry Table World

def Leaf.vars : Leaf → List TypeParam
  | var name bound => [⟨name, bound⟩]
  | object _ base => base.varOccurrences

namespace Ty

mutual

theorem varOccurrences_subset : ∀ t : Ty, t.varOccurrences ⊆ t.leaves.flatMap Leaf.vars
  | any | cls _ | literal _ | module _ => nil_subset _
  | var _ _ | object _ _ => by simp [varOccurrences, leaves, Leaf.vars]
  | app _ args => allVarOccurrences_subset args
  | tuple elements => allVarOccurrences_subset elements
  | union arms => allVarOccurrences_subset arms
  | func ⟨_, overloads, _⟩ => overloadVars_subset overloads
  | method _ _ _ ⟨_, overloads, _⟩ => by
    -- The receiver and the owner do not count for the free variables.
    rw [leaves, flatMap_append]
    exact subset_append_of_subset_right _ (overloadVars_subset overloads)
  | type inner => varOccurrences_subset inner

theorem allVarOccurrences_subset : ∀ types : List Ty,
    allVarOccurrences types ⊆ (leavesAll types).flatMap Leaf.vars
  | [] => nil_subset _
  | t :: rest => by
    rw [leavesAll, flatMap_append]
    exact append_subset_append (varOccurrences_subset t) (allVarOccurrences_subset rest)

theorem optionVars_subset : ∀ type : Option Ty, optionVars type ⊆ (leavesOption type).flatMap Leaf.vars
  | none => nil_subset _
  | some t => varOccurrences_subset t

theorem overloadVars_subset : ∀ overloads : List Signature,
    overloadVars overloads ⊆ (leavesOverloads overloads).flatMap Leaf.vars
  | [] => nil_subset _
  | ⟨params, returns, _⟩ :: rest => by
    simp only [leavesOverloads, flatMap_append]
    exact append_subset_append (append_subset_append (paramVars_subset params)
      (optionVars_subset returns)) (overloadVars_subset rest)

theorem paramVars_subset : ∀ params : List Formal, paramVars params ⊆ (leavesParams params).flatMap Leaf.vars
  | [] => nil_subset _
  | ⟨_, declared, _, _⟩ :: rest => by
    simp only [leavesParams, flatMap_append]
    exact append_subset_append (optionVars_subset declared) (paramVars_subset rest)

end

/-- A variable occurs in a type, be it in the receiver of a bound method. -/
def Mentions (t : Ty) (name : String) : Prop :=
  ∃ bound, .var name bound ∈ t.leaves

theorem mentions_of_mem_freeVars {t : Ty} {name : String} (free : t.objectFree)
    (listed : name ∈ t.freeVars) : t.Mentions name := by
  obtain ⟨param, occurs, rfl⟩ := mem_map.mp (mem_eraseDups.mp listed)
  obtain ⟨leaf, known, here⟩ := mem_flatMap.mp (varOccurrences_subset t occurs)
  cases leaf with
  | object => exact absurd known (object_not_mem_leaves free)
  | var _ bound =>
    rw [mem_singleton.mp here]
    exact ⟨bound, known⟩

end Ty

namespace Subst

variable {subst : Subst} {t : Ty} {name : String}

/-- No image mentions a variable that has an image. -/
def Idempotent (subst : Subst) : Prop :=
  ∀ entry ∈ subst, ∀ name, entry.2.Mentions name → subst.get? name = none

theorem Idempotent.once (idempotent : subst.Idempotent) (name : String) (bound : Option Ty) :
    subst.Once name bound := by
  intro image known
  have listed := mem_of_get? known
  have spared : subst.Spares [name] image := by
    intro other bound occurs
    rw [imageOf, idempotent _ listed other ⟨bound, occurs⟩, ite_self]
  split
  · rename_i same
    cases image with
    | var other limit =>
      obtain rfl := eq_of_beq same
      have replaced := idempotent _ listed other ⟨limit, mem_singleton_self _⟩
      cases known.symm.trans replaced
    | _ => cases same
  · exact spared

theorem Idempotent.not_mentions (idempotent : subst.Idempotent)
    (mentioned : (t.mapVars subst.get?).Mentions name) : subst.get? name = none := by
  obtain ⟨bound, occurs⟩ := mentioned
  obtain ⟨origin, _, inside⟩ := mem_flatMap.mp (Ty.leaves_mapVars_subset _ t occurs)
  cases origin with
  | object => cases mem_singleton.mp inside
  | var other =>
    rw [Leaf.mapped] at inside
    cases known : subst.get? other with
    | none =>
      rw [known] at inside
      cases mem_singleton.mp inside
      exact known
    | some =>
      rw [known] at inside
      exact idempotent _ (mem_of_get? known) name ⟨bound, inside⟩

theorem Idempotent.mapVars_mapVars (idempotent : subst.Idempotent)
    (normal : (t.mapVars subst.get?).WellFormed) :
    (t.mapVars subst.get?).mapVars subst.get? = t.mapVars subst.get? := by
  refine (Ty.mapVars_congr _ fun leaf occurs => ?_).trans (Ty.mapVars_none _ normal)
  cases leaf with
  | object => trivial
  | var _ bound => rw [Ty.AgreeAt, idempotent.not_mentions ⟨bound, occurs⟩]

end Subst

variable {m : Type → Type} [Monad m]

theorem World.apply_of_objectFree (world : World m) {subst : Subst} {t : Ty}
    (free : t.objectFree) (images : ∀ entry ∈ subst, entry.2.objectFree = true) :
    world.apply subst t = pure (subst.apply t) := by
  have imagesFree : subst.objectFree = true := all_eq_true.mpr images
  rw [apply, free, imagesFree]
  rfl

/-- In every world an idempotent substitution puts each image in the place of its variable, once and
with unions in normal form again. No variable that it replaces is left, and applying it once more
changes nothing. -/
theorem World.idempotent_apply_replaces_once (world : World m) {subst : Subst} {t : Ty}
    (regular : t.Regular) (images : ∀ entry ∈ subst, entry.2.Regular) (idempotent : subst.Idempotent) :
    world.apply subst t = pure (t.mapVars subst.get?) ∧ (∀ name, subst.contains name = true →
      name ∉ (t.mapVars subst.get?).freeVars ∧ ¬(t.mapVars subst.get?).Mentions name) ∧
    world.apply subst (t.mapVars subst.get?) = pure (t.mapVars subst.get?) := by
  have imagesFree := fun entry listed => (images entry listed).free
  have imagesNormal := fun entry listed => (images entry listed).wellFormed
  have replaced {t : Ty} (normal : t.WellFormed) : subst.apply t = t.mapVars subst.get? :=
    Subst.apply_eq_mapVars normal imagesNormal fun name bound _ => idempotent.once name bound
  have free : (t.mapVars subst.get?).objectFree = true := Ty.mapVars_objectFree
    (fun name image known => imagesFree _ (mem_of_get? known)) t regular.free
  have normal : (t.mapVars subst.get?).WellFormed := Ty.mapVars_wellFormed
    (fun name image known => imagesNormal _ (mem_of_get? known)) t regular.wellFormed
  refine ⟨?_, fun name known => ?_, ?_⟩
  · rw [world.apply_of_objectFree regular.free imagesFree, replaced regular.wellFormed]
  · have gone : ¬(t.mapVars subst.get?).Mentions name := by
      intro mentioned
      rw [Table.contains, idempotent.not_mentions mentioned] at known
      cases known
    exact ⟨fun listed => gone (Ty.mentions_of_mem_freeVars free listed), gone⟩
  · rw [world.apply_of_objectFree free imagesFree, replaced normal, idempotent.mapVars_mapVars normal]

/-- `T | list[U] | str`, where the image of `U` is `Any` and that of `T` is a union with an arm that
is there already. -/
theorem World.idempotent_apply_replaces_once_in_union :
    let image : Ty := .union [.listOf .any, .strType]
    let shape : Ty := .union [.var "T" none, .listOf (.var "U" none), .strType]
    Registry.world.apply [("T", image), ("U", .any)] shape = pure image := by
  intro image shape
  have imageRegular : image.Regular :=
    ⟨rfl, by decide, ⟨trivial, trivial⟩, trivial, trivial⟩
  have shapeRegular : shape.Regular :=
    ⟨rfl, by decide, trivial, ⟨trivial, trivial⟩, trivial, trivial⟩
  have images : ∀ entry ∈ [("T", image), ("U", .any)], entry.2.Regular :=
    forall_mem_cons.mpr ⟨imageRegular, forall_mem_singleton.mpr ⟨rfl, trivial⟩⟩
  have idempotent : Subst.Idempotent [("T", image), ("U", .any)] := by
    simp only [Subst.Idempotent, mem_cons, not_mem_nil, or_false, forall_eq_or_imp, forall_eq]
    constructor <;> rintro name ⟨bound, occurs⟩ <;> cases occurs
  obtain ⟨applied, _⟩ :=
    idempotent_apply_replaces_once world shapeRegular images idempotent
  rw [applied]
  have ordered : Ty.sortByText [.listOf .any, .strType] = [.listOf .any, .strType] :=
    Ty.sortByText_of_ordered (by decide)
  exact congrArg (pure <| Ty.union ·) ordered

end Stubwise
