import Stubwise.Lattice.World
import Stubwise.Proofs.Ty.Normal

namespace Stubwise

open List Table

variable {args : List Ty} {entry : String × Ty}

/-- What applying a substitution comes to inside a type: variables, and instances, whose class and
attributes are entered in their own turn. -/
inductive Leaf where
  | var (name : String) (bound : Option Ty)
  | object (id : Nat) (base : Ty)

namespace Ty

mutual

/-- The leaves of a type in the order in which they are come to. -/
def leaves : Ty → List Leaf
  | any | cls _ | literal _ | module _ => []
  | var name bound => [.var name bound]
  | app _ args => leavesAll args
  | tuple elements => leavesAll elements
  | union arms => leavesAll arms
  | func ⟨_, overloads, _⟩ => leavesOverloads overloads
  | method receiver owner _ ⟨_, overloads, _⟩ =>
    receiver.leaves ++ owner.leaves ++ leavesOverloads overloads
  | type inner => inner.leaves
  | object id base => [.object id base]

def leavesAll : List Ty → List Leaf
  | [] => []
  | t :: rest => t.leaves ++ leavesAll rest

def leavesOption : Option Ty → List Leaf
  | none => []
  | some t => t.leaves

def leavesOverloads : List Signature → List Leaf
  | [] => []
  | ⟨params, returns, _⟩ :: rest =>
    leavesParams params ++ leavesOption returns ++ leavesOverloads rest

def leavesParams : List Formal → List Leaf
  | [] => []
  | ⟨_, declared, _, _⟩ :: rest => leavesOption declared ++ leavesParams rest

end

end Ty

namespace Leaf

/-- Whether there is no instance at a leaf, nor in the bound of a variable. -/
def objectFree : Leaf → Bool
  | var _ bound => Ty.optionObjectFree bound
  | object _ _ => false

/-- The leaves that come in the place of a leaf where variables are replaced. -/
def mapped (image : String → Option Ty) : Leaf → List Leaf
  | var name bound => ((image name).getD (.var name bound)).leaves
  | object id base => [object id base]

end Leaf

namespace Ty

variable {types : List Ty} {t : Ty}

mutual

theorem objectFree_eq_all : ∀ t : Ty, t.objectFree = t.leaves.all (·.objectFree)
  | any | cls _ | literal _ | module _ | object _ _ => rfl
  | var _ _ => (Bool.and_true _).symm
  | app _ args => allObjectFree_eq_all args
  | tuple elements => allObjectFree_eq_all elements
  | union arms => allObjectFree_eq_all arms
  | func ⟨_, overloads, _⟩ => overloadsObjectFree_eq_all overloads
  | method receiver owner _ ⟨_, overloads, _⟩ => by
    simp only [objectFree, leaves, all_append, objectFree_eq_all receiver,
      objectFree_eq_all owner, overloadsObjectFree_eq_all overloads]
  | type inner => objectFree_eq_all inner

theorem allObjectFree_eq_all : ∀ types : List Ty, allObjectFree types = (leavesAll types).all (·.objectFree)
  | [] => rfl
  | t :: rest => by
    simp only [allObjectFree, leavesAll, all_append, objectFree_eq_all t, allObjectFree_eq_all rest]

theorem optionObjectFree_eq_all : ∀ type : Option Ty,
    optionObjectFree type = (leavesOption type).all (·.objectFree)
  | none => rfl
  | some t => objectFree_eq_all t

theorem overloadsObjectFree_eq_all : ∀ overloads : List Signature,
    overloadsObjectFree overloads = (leavesOverloads overloads).all (·.objectFree)
  | [] => rfl
  | ⟨params, returns, _⟩ :: rest => by
    simp only [overloadsObjectFree, leavesOverloads, all_append,
      paramsObjectFree_eq_all params, optionObjectFree_eq_all returns,
      overloadsObjectFree_eq_all rest]

theorem paramsObjectFree_eq_all : ∀ params : List Formal,
    paramsObjectFree params = (leavesParams params).all (·.objectFree)
  | [] => rfl
  | ⟨_, declared, _, _⟩ :: rest => by
    simp only [paramsObjectFree, leavesParams, all_append, optionObjectFree_eq_all declared,
      paramsObjectFree_eq_all rest]

end

theorem objectFree_iff : t.objectFree = true ↔ ∀ leaf ∈ t.leaves, leaf.objectFree = true := by
  rw [objectFree_eq_all, all_eq_true]

theorem object_not_mem_leaves {id : Nat} {base : Ty} (free : t.objectFree) :
    Leaf.object id base ∉ t.leaves := by
  intro occurs
  cases objectFree_iff.mp free _ occurs

theorem allObjectFree_iff {types : List Ty} :
    allObjectFree types = true ↔ ∀ t ∈ types, t.objectFree = true := by
  induction types with
  | nil => simp [allObjectFree]
  | cons _ _ ih => simp [allObjectFree, ih]

theorem leavesAll_eq_flatMap (types : List Ty) : leavesAll types = types.flatMap leaves := by
  induction types with
  | nil => rfl
  | cons _ _ ih => rw [leavesAll, ih, flatMap_cons]

theorem leaves_subset_of_mem_arms {arm : Ty} (member : arm ∈ t.arms) : arm.leaves ⊆ t.leaves := by
  cases t with
  | union =>
    intro leaf listed
    rw [leaves, leavesAll_eq_flatMap]
    exact mem_flatMap.mpr ⟨arm, member, listed⟩
  | _ =>
    rw [mem_singleton.mp member]
    exact List.Subset.refl _

theorem leaves_unionOf_subset (types : List Ty) : (unionOf types).leaves ⊆ leavesAll types := by
  have below : ∀ arm ∈ distinct (types.flatMap arms), arm.leaves ⊆ leavesAll types := by
    intro arm member leaf listed
    obtain ⟨t, known, armOf⟩ := mem_arms_of_mem_distinct member
    rw [leavesAll_eq_flatMap]
    exact mem_flatMap.mpr ⟨t, known, leaves_subset_of_mem_arms armOf listed⟩
  cases known : types.any isAny with
  | true =>
    rw [unionOf_of_any known]
    exact nil_subset _
  | false =>
    rcases unionOf_cases known with ⟨_, none⟩ | ⟨t, single, alone⟩ | ⟨_, joined⟩
    · rw [none]
      exact nil_subset _
    · rw [alone]
      exact below t (single ▸ mem_cons_self)
    · rw [joined, leaves, leavesAll_eq_flatMap]
      intro leaf listed
      obtain ⟨arm, member, inArm⟩ := mem_flatMap.mp listed
      exact below arm (sortByText_perm.mem_iff.mp member) inArm

theorem unionOf_objectFree (each : ∀ t ∈ types, t.objectFree = true) : (unionOf types).objectFree = true := by
  have free := allObjectFree_iff.mpr each
  rw [allObjectFree_eq_all, all_eq_true] at free
  exact objectFree_iff.mpr fun leaf listed => free leaf (leaves_unionOf_subset types listed)

section Mapped

theorem append_subset_append {α : Type} {first second left right : List α} (one : first ⊆ left)
    (two : second ⊆ right) : first ++ second ⊆ left ++ right :=
  append_subset.mpr ⟨subset_append_of_subset_left _ one, subset_append_of_subset_right _ two⟩

variable (image : String → Option Ty)

abbrev mapVarsAll (types : List Ty) : List Ty :=
  Id.run (rebuildAll (varImage image) types)

abbrev mapVarsOption (type : Option Ty) : Option Ty :=
  Id.run (rebuildOption (varImage image) type)

abbrev mapVarsOverloads (overloads : List Signature) : List Signature :=
  Id.run (rebuildOverloads (varImage image) overloads)

abbrev mapVarsParams (params : List Formal) : List Formal :=
  Id.run (rebuildParams (varImage image) params)

mutual

theorem leaves_mapVars_subset :
    ∀ t : Ty, (t.mapVars image).leaves ⊆ t.leaves.flatMap (·.mapped image)
  | any | cls _ | literal _ | module _ => nil_subset _
  | var _ _ | object _ _ => by
    rw [leaves, flatMap_singleton]
    exact List.Subset.refl _
  | app _ args => leavesAll_mapVarsAll_subset args
  | tuple elements => leavesAll_mapVarsAll_subset elements
  | union arms => List.Subset.trans (leaves_unionOf_subset _) (leavesAll_mapVarsAll_subset arms)
  | func ⟨_, overloads, _⟩ => leavesOverloads_mapVars_subset overloads
  | method receiver owner _ ⟨_, overloads, _⟩ => by
    simp only [leaves, flatMap_append]
    exact append_subset_append (append_subset_append (leaves_mapVars_subset receiver)
      (leaves_mapVars_subset owner)) (leavesOverloads_mapVars_subset overloads)
  | type inner => leaves_mapVars_subset inner

theorem leavesAll_mapVarsAll_subset : ∀ types : List Ty,
    leavesAll (mapVarsAll image types) ⊆ (leavesAll types).flatMap (·.mapped image)
  | [] => nil_subset _
  | t :: rest => by
    rw [leavesAll, flatMap_append]
    exact append_subset_append (leaves_mapVars_subset t) (leavesAll_mapVarsAll_subset rest)

theorem leavesOption_mapVars_subset : ∀ type : Option Ty,
    leavesOption (mapVarsOption image type) ⊆ (leavesOption type).flatMap (·.mapped image)
  | none => nil_subset _
  | some t => leaves_mapVars_subset t

theorem leavesOverloads_mapVars_subset : ∀ overloads : List Signature,
    leavesOverloads (mapVarsOverloads image overloads) ⊆ (leavesOverloads overloads).flatMap (·.mapped image)
  | [] => nil_subset _
  | ⟨params, returns, _⟩ :: rest => by
    simp only [leavesOverloads, flatMap_append]
    exact append_subset_append (append_subset_append
      (leavesParams_mapVars_subset params) (leavesOption_mapVars_subset returns))
      (leavesOverloads_mapVars_subset rest)

theorem leavesParams_mapVars_subset : ∀ params : List Formal,
    leavesParams (mapVarsParams image params) ⊆ (leavesParams params).flatMap (·.mapped image)
  | [] => nil_subset _
  | ⟨_, declared, _, _⟩ :: rest => by
    simp only [leavesParams, flatMap_append]
    exact append_subset_append (leavesOption_mapVars_subset declared) (leavesParams_mapVars_subset rest)

end

end Mapped

theorem mapVars_objectFree {image : String → Option Ty}
    (images : ∀ name t, image name = some t → t.objectFree = true) (t : Ty)
    (free : t.objectFree) : (t.mapVars image).objectFree = true := by
  refine objectFree_iff.mpr fun leaf listed => ?_
  obtain ⟨origin, known, inside⟩ := mem_flatMap.mp (leaves_mapVars_subset image t listed)
  have originFree := objectFree_iff.mp free origin known
  cases origin with
  | object => cases originFree
  | var name =>
    rw [Leaf.mapped] at inside
    cases replaced : image name with
    | none =>
      rw [replaced] at inside
      rwa [mem_singleton.mp inside]
    | some t =>
      rw [replaced] at inside
      exact objectFree_iff.mp (images name t replaced) leaf inside

theorem arms_objectFree (free : t.objectFree) : ∀ arm ∈ t.arms, arm.objectFree = true := by
  intro arm member
  cases t with
  | union => exact allObjectFree_iff.mp free arm member
  | _ =>
    rw [mem_singleton.mp member]
    exact free

theorem nominal?_objectFree {ref : ClassRef} (free : t.objectFree)
    (found : t.nominal? = some (ref, args)) : allObjectFree args = true := by
  cases t with
  | any | var _ _ | union _ => cases found
  | object => cases free
  | literal =>
    simp only [nominal?] at found
    split at found <;> cases found
    rfl
  | tuple =>
    cases found
    exact allObjectFree_iff.mpr
      (forall_mem_singleton.mpr (unionOf_objectFree (allObjectFree_iff.mp free)))
  | cls _ | func _ | method _ _ _ _ | module _ =>
    cases found
    rfl
  | app =>
    cases found
    exact free
  | type =>
    cases found
    rw [objectFree] at free
    simp [allObjectFree, free]

end Ty

namespace Subst

variable {subst : Subst} {passed : List String} {t : Ty}

theorem objectFree_of_mem (free : subst.objectFree)
    (member : entry ∈ subst) : entry.2.objectFree = true :=
  all_eq_true.mp free entry member

theorem applyWithin_objectFree (images : subst.objectFree) (steps : Nat)
    (free : t.objectFree) : (subst.applyWithin steps passed t).objectFree = true := by
  induction steps generalizing passed t with
  | zero =>
    refine Ty.mapVars_objectFree (fun _ _ known => ?_) t free
    cases known
  | succ _ ih =>
    refine Ty.mapVars_objectFree (fun name image known => ?_) t free
    obtain ⟨before, found, rfl⟩ := Option.map_eq_some_iff.mp known
    exact ih (objectFree_of_mem images (mem_of_imageOf found))

theorem apply_objectFree (images : subst.objectFree) (free : t.objectFree) :
    (subst.apply t).objectFree = true := by
  rw [apply]
  split
  · exact free
  · exact applyWithin_objectFree images _ free

theorem set_objectFree {name : String} (images : subst.objectFree)
    (free : t.objectFree) : objectFree (set subst name t) = true := by
  refine all_eq_true.mpr fun entry listed => ?_
  rcases mem_of_mem_set listed with rfl | known
  · exact free
  · exact objectFree_of_mem images known

end Subst

namespace Class

theorem mem_of_mem_substOf {params : List TypeParam} {subst : Subst}
    (listed : entry ∈ substOf params args subst) :
    entry ∈ subst ∨ entry.2 = .any ∨ entry.2 ∈ args := by
  induction params generalizing args subst with
  | nil => exact .inl listed
  | cons _ _ ih =>
    cases args with
    | nil =>
      rcases ih listed with known | other
      · rcases mem_of_mem_set known with rfl | known
        · exact .inr (.inl rfl)
        · exact .inl known
      · exact .inr other
    | cons =>
      rcases ih listed with known | missing | later
      · rcases mem_of_mem_set known with rfl | known
        · exact .inr (.inr mem_cons_self)
        · exact .inl known
      · exact .inr (.inl missing)
      · exact .inr (.inr (mem_cons_of_mem _ later))

theorem mem_subst {cls : Class} (listed : entry ∈ cls.subst args) : entry.2 = .any ∨ entry.2 ∈ args :=
  (mem_of_mem_substOf listed).resolve_left not_mem_nil

theorem subst_objectFree (cls : Class) (free : Ty.allObjectFree args) :
    (cls.subst args).objectFree = true := by
  refine all_eq_true.mpr fun entry listed => ?_
  rcases mem_subst listed with missing | given
  · rw [missing]
    rfl
  · exact Ty.allObjectFree_iff.mp free _ given

end Class

end Stubwise
