import Stubwise.Ty.Subst

namespace Stubwise

open List

variable {flat : List Ty} {other : Ty}

theorem ClassRef.same_refl (ref : ClassRef) : ref.same ref = true := by
  simp [same]

theorem ClassRef.same_congr {a b : ClassRef} (same : a.same b) (c : ClassRef) : a.same c = b.same c := by
  rw [ClassRef.same, ClassRef.same, eq_of_beq same]

theorem ClassRef.same_comm (a b : ClassRef) : a.same b = b.same a := by
  exact BEq.comm

namespace Ty

mutual

@[simp]
theorem identical_refl : ∀ t : Ty, t.identical t = true
  | any => rfl
  | var .. | literal _ | func _ | module _ | object .. => by simp [identical]
  | cls ref => by simp [identical, ref.same_refl]
  | app ref args => by simp [identical, ref.same_refl, allIdentical_refl args]
  | tuple elements => by simp [identical, allIdentical_refl elements]
  | union arms => by simp [identical, allIdentical_refl arms]
  | method receiver owner name function => by
    simp [identical, identical_refl owner, identical_refl receiver]
  | type inner => by simp [identical, identical_refl inner]

theorem allIdentical_refl : ∀ ts : List Ty, allIdentical ts ts = true
  | [] => rfl
  | t :: ts => by simp [allIdentical, identical_refl t, allIdentical_refl ts]

end

mutual

theorem identical_comm : ∀ a b : Ty, a.identical b = b.identical a
  | any, b => by cases b <;> rfl
  | var .., b | literal _, b | func _, b | module _, b | object .., b => by
    cases b <;> simp [identical, BEq.comm]
  | cls ref, b => by cases b <;> simp [identical, ref.same_comm]
  | app ref args, b => by cases b <;> simp [identical, ref.same_comm, allIdentical_comm args]
  | tuple elements, b => by cases b <;> simp [identical, allIdentical_comm elements]
  | union arms, b => by cases b <;> simp [identical, allIdentical_comm arms]
  | method receiver owner name function, b => by
    cases b <;> simp [identical, BEq.comm, identical_comm owner, identical_comm receiver]
  | type inner, b => by cases b <;> simp [identical, identical_comm inner]

theorem allIdentical_comm : ∀ as bs : List Ty, allIdentical as bs = allIdentical bs as
  | [], bs => by cases bs <;> rfl
  | a :: as, bs => by
    cases bs with
    | nil => rfl
    | cons b bs => simp [allIdentical, identical_comm a b, allIdentical_comm as bs]

end

mutual

theorem identical_trans : ∀ a b c : Ty, a.identical b = true → b.identical c = true → a.identical c = true
  | app _ args, b, c, first, second => by
    cases b <;> try cases first
    cases c <;> try cases second
    grind [identical, ClassRef.same, allIdentical_trans args]
  | tuple elements, b, c, first, second => by
    cases b <;> try cases first
    cases c <;> try cases second
    exact allIdentical_trans elements _ _ first second
  | union arms, b, c, first, second => by
    cases b <;> try cases first
    cases c <;> try cases second
    exact allIdentical_trans arms _ _ first second
  | method receiver owner _ _, b, c, first, second => by
    cases b <;> try cases first
    cases c <;> try cases second
    grind [identical, identical_trans owner, identical_trans receiver]
  | type inner, b, c, first, second => by
    cases b <;> try cases first
    cases c <;> try cases second
    exact identical_trans inner _ _ first second
  | any, b, c, first, second | var _ _, b, c, first, second | cls _, b, c, first, second
  | literal _, b, c, first, second | func _, b, c, first, second | module _, b, c, first, second
  | object _ _, b, c, first, second => by
    cases b <;> try cases first
    cases c <;> try cases second
    grind [identical, ClassRef.same]

theorem allIdentical_trans : ∀ as bs cs : List Ty, allIdentical as bs = true →
    allIdentical bs cs = true → allIdentical as cs = true
  | [], bs, cs, first, second => by
    cases bs <;> try cases first
    exact second
  | a :: as, bs, cs, first, second => by
    cases bs <;> try cases first
    cases cs <;> try cases second
    grind [allIdentical, identical_trans a, allIdentical_trans as]

end
theorem identical_congr {a b : Ty} (same : a.identical b) (c : Ty) :
    a.identical c = b.identical c :=
  Bool.eq_iff_iff.mpr ⟨identical_trans b a c (identical_comm a b ▸ same), identical_trans a b c same⟩

/-- Whether a type can be an arm of a normal union: it is neither `Any` nor a union. -/
def isArm : Ty → Bool
  | any | union _ => false
  | _ => true

structure Normal (arms : List Ty) : Prop where
  several : 2 ≤ arms.length
  plain : ∀ arm ∈ arms, arm.isArm = true
  apart : arms.Pairwise fun a b => a.identical b = false
  ordered : arms.Pairwise fun a b => a.text ≤ b.text

instance (arms : List Ty) : Decidable (Normal arms) :=
  decidable_of_iff (2 ≤ arms.length ∧ (∀ arm ∈ arms, arm.isArm = true) ∧
      (arms.Pairwise fun a b => a.identical b = false) ∧ arms.Pairwise fun a b => a.text ≤ b.text)
    ⟨fun ⟨several, plain, apart, ordered⟩ => ⟨several, plain, apart, ordered⟩,
      fun normal => ⟨normal.several, normal.plain, normal.apart, normal.ordered⟩⟩

mutual

/-- Whether every union in a type is normal. -/
def WellFormed : Ty → Prop
  | any | cls _ | literal _ | module _ => True
  | var _ bound => OptionWellFormed bound
  | app _ args => AllWellFormed args
  | tuple elements => AllWellFormed elements
  | union arms => Normal arms ∧ AllWellFormed arms
  | func ⟨_, overloads, _⟩ => OverloadsWellFormed overloads
  | method receiver owner _ ⟨_, overloads, _⟩ =>
    receiver.WellFormed ∧ owner.WellFormed ∧ OverloadsWellFormed overloads
  | type inner => inner.WellFormed
  | object _ base => base.WellFormed

def AllWellFormed : List Ty → Prop
  | [] => True
  | t :: rest => t.WellFormed ∧ AllWellFormed rest

def OptionWellFormed : Option Ty → Prop
  | none => True
  | some t => t.WellFormed

def OverloadsWellFormed : List Signature → Prop
  | [] => True
  | ⟨params, returns, _⟩ :: rest =>
    ParamsWellFormed params ∧ OptionWellFormed returns ∧ OverloadsWellFormed rest

def ParamsWellFormed : List Formal → Prop
  | [] => True
  | ⟨_, declared, _, _⟩ :: rest => OptionWellFormed declared ∧ ParamsWellFormed rest

end

theorem allWellFormed_iff {types : List Ty} : AllWellFormed types ↔ ∀ t ∈ types, t.WellFormed := by
  induction types with
  | nil => simp [AllWellFormed]
  | cons _ _ ih => simp [AllWellFormed, ih]

section Distinct

variable {kept types : List Ty} {t : Ty}

def distinctAfter (kept types : List Ty) : List Ty :=
  types.foldl (fun kept t => if kept.any (t.identical ·) then kept else kept ++ [t]) kept

theorem distinctAfter_cons :
    distinctAfter kept (t :: types) =
      distinctAfter (if kept.any (t.identical ·) then kept else kept ++ [t]) types :=
  rfl

theorem sublist_distinctAfter : kept.Sublist (distinctAfter kept types) := by
  induction types generalizing kept with
  | nil => exact .refl _
  | cons next rest ih =>
    rw [distinctAfter_cons]
    split
    · exact ih
    · exact (sublist_append_left kept [next]).trans ih

theorem mem_of_mem_distinctAfter (member : t ∈ distinctAfter kept types) : t ∈ kept ∨ t ∈ types := by
  induction types generalizing kept with
  | nil => exact .inl member
  | cons _ _ ih =>
    rw [distinctAfter_cons] at member
    rcases ih member with early | late
    · split at early
      · exact .inl early
      · rcases mem_append.mp early with early | last
        · exact .inl early
        · rw [mem_singleton.mp last]
          exact .inr mem_cons_self
    · exact .inr (mem_cons_of_mem _ late)

theorem distinctAfter_apart (apart : kept.Pairwise fun a b => a.identical b = false) :
    (distinctAfter kept types).Pairwise fun a b => a.identical b = false := by
  induction types generalizing kept with
  | nil => exact apart
  | cons next rest ih =>
    rw [distinctAfter_cons]
    apply ih
    split
    · exact apart
    · rename_i fresh
      refine pairwise_append.mpr ⟨apart, pairwise_singleton .., fun a early b last => ?_⟩
      rw [mem_singleton.mp last, identical_comm]
      exact Bool.eq_false_iff.mpr fun same => fresh (any_eq_true.mpr ⟨a, early, same⟩)

theorem exists_identical_distinctAfter (member : t ∈ types) :
    ∃ other ∈ distinctAfter kept types, t.identical other = true := by
  induction types generalizing kept with
  | nil => cases member
  | cons next rest ih =>
    rw [distinctAfter_cons]
    rcases mem_cons.mp member with rfl | later
    · split
      · rename_i known
        obtain ⟨other, early, same⟩ := any_eq_true.mp known
        exact ⟨other, sublist_distinctAfter.mem early, same⟩
      · exact ⟨t, sublist_distinctAfter.mem (mem_append_right _ mem_cons_self), t.identical_refl⟩
    · exact ih later

theorem distinctAfter_of_apart (apart : (kept ++ types).Pairwise fun a b => a.identical b = false) :
    distinctAfter kept types = kept ++ types := by
  induction types generalizing kept with
  | nil => exact (append_nil kept).symm
  | cons next rest ih =>
    have fresh : kept.any (next.identical ·) = false := by
      refine any_eq_false.mpr fun other early same => ?_
      rw [identical_comm] at same
      have differ := (pairwise_append.mp apart).2.2 other early next mem_cons_self
      rw [differ] at same
      cases same
    rw [append_cons] at apart ⊢
    rw [distinctAfter_cons, fresh]
    exact ih apart

theorem mem_of_mem_distinct (member : t ∈ distinct types) : t ∈ types := by
  rcases mem_of_mem_distinctAfter member with early | late
  · cases early
  · exact late

theorem distinct_apart : (distinct types).Pairwise fun a b => a.identical b = false :=
  distinctAfter_apart .nil

theorem exists_identical_distinct (member : t ∈ types) :
    ∃ other ∈ distinct types, t.identical other = true :=
  exists_identical_distinctAfter member

theorem distinct_of_apart (apart : types.Pairwise fun a b => a.identical b = false) :
    distinct types = types :=
  distinctAfter_of_apart apart

end Distinct

section Sorting

variable {types : List Ty} {t : Ty}

theorem sortByText_perm : (sortByText types).Perm types := mergeSort_perm ..

theorem textOrder_trans (a b c : Ty) (first : decide (a.text ≤ b.text) = true)
    (second : decide (b.text ≤ c.text) = true) : decide (a.text ≤ c.text) = true :=
  decide_eq_true (String.le_trans (of_decide_eq_true first) (of_decide_eq_true second))

theorem textOrder_total (a b : Ty) : (decide (a.text ≤ b.text) || decide (b.text ≤ a.text)) = true := by
  simpa using String.le_total a.text b.text

theorem sortByText_ordered : (sortByText types).Pairwise fun a b => a.text ≤ b.text :=
  (pairwise_mergeSort textOrder_trans textOrder_total types).imp of_decide_eq_true

theorem sortByText_of_ordered (ordered : types.Pairwise fun a b => a.text ≤ b.text) :
    sortByText types = types :=
  mergeSort_of_pairwise (ordered.imp fun le => decide_eq_true le)

end Sorting

section UnionOf

variable {types : List Ty} {t arm : Ty}

theorem arms_of_isArm (plain : t.isArm) : t.arms = [t] := by
  cases t with
  | union => cases plain
  | _ => rfl

theorem isAny_of_isArm (plain : t.isArm) : t.isAny = false := by
  cases t with
  | any => cases plain
  | _ => rfl

theorem exists_identical_of_allIdentical {others : List Ty}
    (same : allIdentical types others) (member : arm ∈ others) :
    ∃ other ∈ types, arm.identical other = true := by
  induction types generalizing others with
  | nil =>
    cases others with
    | nil => cases member
    | cons => cases same
  | cons t _ ih =>
    cases others with
    | nil => cases member
    | cons =>
      simp only [allIdentical, Bool.and_eq_true] at same
      rcases mem_cons.mp member with rfl | later
      · exact ⟨t, mem_cons_self, identical_comm t arm ▸ same.1⟩
      · obtain ⟨found, listed, known⟩ := ih same.2 later
        exact ⟨found, mem_cons_of_mem _ listed, known⟩

theorem allIdentical_arms (same : t.identical other) : allIdentical t.arms other.arms = true := by
  cases t <;> cases other <;> first
    | exact same
    | exact (Bool.and_true _).trans same
    | cases same

theorem isAny_of_identical (same : t.identical other) : other.isAny = t.isAny := by
  cases t <;> cases other <;> first
    | rfl
    | cases same

theorem exists_identical_of_identical (same : t.identical other)
    (member : arm ∈ other.arms) : ∃ found ∈ t.arms, arm.identical found = true :=
  exists_identical_of_allIdentical (allIdentical_arms same) member

theorem WellFormed.arms_isArm (wellFormed : t.WellFormed) (known : t.isAny = false)
    (member : arm ∈ t.arms) : arm.isArm = true := by
  cases t with
  | union => exact wellFormed.1.plain arm member
  | any => cases known
  | _ =>
    rw [mem_singleton.mp member]
    rfl

theorem WellFormed.arms (wellFormed : t.WellFormed) (member : arm ∈ t.arms) : arm.WellFormed := by
  cases t with
  | union => exact allWellFormed_iff.mp wellFormed.2 arm member
  | _ =>
    rw [mem_singleton.mp member]
    exact wellFormed

theorem unionOf_of_any (known : types.any isAny) : unionOf types = any := by
  rw [unionOf, if_pos known]

theorem unionOf_cases (known : types.any isAny = false) :
    (distinct (types.flatMap arms) = [] ∧ unionOf types = any) ∨
    (∃ t, distinct (types.flatMap arms) = [t] ∧ unionOf types = t) ∨
    (2 ≤ (distinct (types.flatMap arms)).length ∧
      unionOf types = union (sortByText (distinct (types.flatMap arms)))) := by
  rw [unionOf, if_neg (by simp [known])]
  rcases distinct (types.flatMap arms) with _ | ⟨first, _ | ⟨second, rest⟩⟩
  · exact .inl ⟨rfl, rfl⟩
  · exact .inr (.inl ⟨first, rfl, rfl⟩)
  · exact .inr (.inr ⟨by simp, rfl⟩)

/-- The union of arms that are in normal order already. -/
def ofArms : List Ty → Ty
  | [] => any
  | [t] => t
  | arms => union arms

theorem unionOf_eq_ofArms (known : types.any isAny = false) :
    unionOf types = ofArms (sortByText (distinct (types.flatMap arms))) := by
  rcases unionOf_cases known with ⟨none, all⟩ | ⟨t, single, all⟩ | ⟨several, all⟩
  · rw [all, none, sortByText_of_ordered .nil, ofArms]
  · rw [all, single, sortByText_of_ordered (pairwise_singleton ..), ofArms]
  · rw [← sortByText_perm.length_eq] at several
    rw [all]
    rcases sorted : sortByText (distinct (types.flatMap arms)) with _ | ⟨_, _ | ⟨_, _⟩⟩
    · simp [sorted] at several
    · simp [sorted] at several
    · rfl

theorem mem_arms_of_mem_distinct (member : arm ∈ distinct (types.flatMap arms)) :
    ∃ t ∈ types, arm ∈ t.arms :=
  mem_flatMap.mp (mem_of_mem_distinct member)

theorem unionOf_wellFormed (each : ∀ t ∈ types, t.WellFormed) : (unionOf types).WellFormed := by
  cases known : types.any isAny with
  | true =>
    rw [unionOf_of_any known]
    trivial
  | false =>
    have armsWellFormed : ∀ arm ∈ distinct (types.flatMap arms), arm.WellFormed := by
      intro arm member
      obtain ⟨t, listed, below⟩ := mem_arms_of_mem_distinct member
      exact (each t listed).arms below
    have armsPlain : ∀ arm ∈ distinct (types.flatMap arms), arm.isArm = true := by
      intro arm member
      obtain ⟨t, listed, below⟩ := mem_arms_of_mem_distinct member
      refine (each t listed).arms_isArm ?_ below
      exact Bool.eq_false_iff.mpr (any_eq_false.mp known t listed)
    rcases unionOf_cases known with ⟨_, none⟩ | ⟨t, single, alone⟩ | ⟨several, joined⟩
    · rw [none]
      trivial
    · rw [alone]
      exact armsWellFormed t (single ▸ mem_cons_self)
    · rw [joined]
      refine ⟨⟨?_, fun arm member => ?_, ?_, sortByText_ordered⟩, allWellFormed_iff.mpr fun arm member => ?_⟩
      · rw [sortByText_perm.length_eq]
        exact several
      · exact armsPlain arm (sortByText_perm.mem_iff.mp member)
      · refine (sortByText_perm.pairwise_iff ?_).mpr distinct_apart
        intro a b apart
        rw [identical_comm]
        exact apart
      · exact armsWellFormed arm (sortByText_perm.mem_iff.mp member)

theorem arms_ofArms (some : flat ≠ []) (plain : ∀ t ∈ flat, t.isArm = true) : (ofArms flat).arms = flat := by
  rcases flat with _ | ⟨t, _ | ⟨_, _⟩⟩
  · exact absurd rfl some
  · exact arms_of_isArm (plain t mem_cons_self)
  · rfl

theorem arms_unionOf_eq (some : types.flatMap arms ≠ [])
    (plain : ∀ arm ∈ types.flatMap arms, arm.isArm = true) :
    (unionOf types).arms = sortByText (distinct (types.flatMap arms)) := by
  have known : types.any isAny = false := by
    refine any_eq_false.mpr fun t listed mentioned => ?_
    cases t with
    | any => cases plain any (mem_flatMap.mpr ⟨any, listed, mem_cons_self⟩)
    | _ => cases mentioned
  rw [unionOf_eq_ofArms known, arms_ofArms]
  · obtain ⟨arm, inside⟩ := exists_mem_of_ne_nil _ some
    obtain ⟨_, kept, _⟩ := exists_identical_distinct inside
    exact ne_nil_of_mem (sortByText_perm.mem_iff.mpr kept)
  · exact fun t listed => plain t (mem_of_mem_distinct (sortByText_perm.mem_iff.mp listed))

theorem unionOf_of_ordered (known : types.any isAny = false)
    (same : types.flatMap arms = flat) (apart : flat.Pairwise fun a b => a.identical b = false)
    (ordered : flat.Pairwise fun a b => a.text ≤ b.text) : unionOf types = ofArms flat := by
  rw [unionOf_eq_ofArms known, same, distinct_of_apart apart, sortByText_of_ordered ordered]

theorem ofArms_of_several (several : 2 ≤ flat.length) : ofArms flat = union flat := by
  rcases flat with _ | ⟨_, _ | ⟨_, _⟩⟩
  · cases several
  · exact absurd several (Nat.not_succ_le_self 1)
  · rfl

theorem unionOf_of_normal (known : types.any isAny = false)
    (same : types.flatMap arms = flat) (normal : Normal flat) : unionOf types = union flat := by
  rw [unionOf_of_ordered known same normal.apart normal.ordered, ofArms_of_several normal.several]

theorem unionOf_singleton (wellFormed : t.WellFormed) : unionOf [t] = t := by
  cases t with
  | any => rfl
  | union types => exact unionOf_of_normal rfl (append_nil types) wellFormed.1
  | _ => rfl

theorem any_isAny_of_unionOf (known : (unionOf types).isAny = false) : types.any isAny = false := by
  rw [Bool.eq_false_iff]
  intro mentioned
  rw [unionOf_of_any mentioned] at known
  cases known

section

variable (each : ∀ t ∈ types, t.WellFormed)
include each

theorem arms_unionOf (known : (unionOf types).isAny = false) :
    (unionOf types).arms.Perm (distinct (types.flatMap arms)) := by
  have noAny := any_isAny_of_unionOf known
  rcases unionOf_cases noAny with ⟨_, none⟩ | ⟨t, single, alone⟩ | ⟨_, joined⟩
  · rw [none] at known
    cases known
  · obtain ⟨whole, listed, below⟩ := mem_arms_of_mem_distinct (single ▸ mem_cons_self)
    have plain := (each whole listed).arms_isArm
      (Bool.eq_false_iff.mpr (any_eq_false.mp noAny whole listed)) below
    rw [alone, single, arms_of_isArm plain]
  · rw [joined]
    exact sortByText_perm

theorem mem_arms_of_mem_unionOf
    (known : (unionOf types).isAny = false) (member : arm ∈ (unionOf types).arms) :
    ∃ t ∈ types, arm ∈ t.arms :=
  mem_arms_of_mem_distinct ((arms_unionOf each known).mem_iff.mp member)

theorem exists_identical_arm
    (known : (unionOf types).isAny = false) (listed : t ∈ types) (member : arm ∈ t.arms) :
    ∃ other ∈ (unionOf types).arms, arm.identical other = true := by
  obtain ⟨other, kept, same⟩ := exists_identical_distinct (mem_flatMap.mpr ⟨t, listed, member⟩)
  exact ⟨other, (arms_unionOf each known).mem_iff.mpr kept, same⟩

end

end UnionOf

section Replacing

section

variable {image : Ty → Option (Id Ty)}
  (images : ∀ t replacement, t.WellFormed → image t = some replacement → replacement.WellFormed)
include images

set_option linter.unusedSectionVars false in
mutual

theorem rebuild_wellFormed (t : Ty) (wellFormed : t.WellFormed) : WellFormed (t.rebuild image) := by
  unfold rebuild
  cases known : image t with
  | some replacement => exact images t replacement wellFormed known
  | none =>
    cases t with
    | app _ types | tuple types => exact rebuildAll_wellFormed types wellFormed
    | union arms =>
      exact unionOf_wellFormed (allWellFormed_iff.mp (rebuildAll_wellFormed arms wellFormed.2))
    | func function =>
      obtain ⟨_, overloads, _⟩ := function
      exact rebuildOverloads_wellFormed overloads wellFormed
    | method receiver owner _ function =>
      obtain ⟨_, overloads, _⟩ := function
      exact ⟨rebuild_wellFormed receiver wellFormed.1, rebuild_wellFormed owner wellFormed.2.1,
        rebuildOverloads_wellFormed overloads wellFormed.2.2⟩
    | type inner => exact rebuild_wellFormed inner wellFormed
    | _ => exact wellFormed

theorem rebuildAll_wellFormed :
    ∀ types : List Ty, AllWellFormed types → AllWellFormed (rebuildAll image types)
  | [], _ => trivial
  | t :: rest, ⟨first, others⟩ =>
    ⟨rebuild_wellFormed t first, rebuildAll_wellFormed rest others⟩

theorem rebuildOption_wellFormed :
    ∀ type : Option Ty, OptionWellFormed type → OptionWellFormed (rebuildOption image type)
  | none, _ => trivial
  | some t, wellFormed => rebuild_wellFormed t wellFormed

theorem rebuildOverloads_wellFormed :
    ∀ overloads : List Signature, OverloadsWellFormed overloads →
      OverloadsWellFormed (rebuildOverloads image overloads)
  | [], _ => trivial
  | ⟨params, returns, _⟩ :: rest, ⟨first, second, others⟩ =>
    ⟨rebuildParams_wellFormed params first, rebuildOption_wellFormed returns second,
      rebuildOverloads_wellFormed rest others⟩

theorem rebuildParams_wellFormed :
    ∀ params : List Formal, ParamsWellFormed params → ParamsWellFormed (rebuildParams image params)
  | [], _ => trivial
  | ⟨_, declared, _, _⟩ :: rest, ⟨first, others⟩ =>
    ⟨rebuildOption_wellFormed declared first, rebuildParams_wellFormed rest others⟩

end

end

theorem mapVars_wellFormed {image : String → Option Ty}
    (images : ∀ name t, image name = some t → t.WellFormed) (t : Ty) (wellFormed : t.WellFormed) :
    (t.mapVars image).WellFormed := by
  refine rebuild_wellFormed (fun t replacement _ given => ?_) t wellFormed
  cases t with
  | var name => exact images name replacement given
  | _ => cases given

theorem replaceSelf_wellFormed {replacement : Ty} (wellFormed : replacement.WellFormed) (t : Ty)
    (inner : t.WellFormed) : (replaceSelf replacement t).WellFormed := by
  refine rebuild_wellFormed (fun t replacement inner given => ?_) t inner
  cases t with
  | cls =>
    obtain ⟨_, same⟩ := Option.ite_none_right_eq_some.mp given
    cases same
    exact wellFormed
  | method =>
    cases given
    exact inner
  | _ => cases given

end Replacing

end Ty

namespace Table

variable {α : Type} {table : Table α} {name : String} {value : α}

theorem mem_of_get? (found : table.get? name = some value) : (name, value) ∈ table := by
  fun_induction get? table name with
  | case1 => cases found
  | case2 _ _ _ same =>
    rw [eq_of_beq same, Option.some.inj found]
    exact mem_cons_self
  | case3 _ _ _ _ ih => exact mem_cons_of_mem _ (ih found)

theorem mem_of_mem_set {entry : String × α} (listed : entry ∈ table.set name value) :
    entry = (name, value) ∨ entry ∈ table := by
  fun_induction set table name value with
  | case1 => exact .inl (mem_singleton.mp listed)
  | case2 _ _ _ same =>
    obtain rfl := eq_of_beq same
    exact (mem_cons.mp listed).imp_right (mem_cons_of_mem _)
  | case3 _ _ _ _ ih =>
    rcases mem_cons.mp listed with rfl | later
    · exact .inr mem_cons_self
    · exact (ih later).imp_right (mem_cons_of_mem _)

end Table

namespace Subst

variable {subst : Subst} {passed : List String} {name : String} {t : Ty}

theorem mem_of_imageOf (found : subst.imageOf passed name = some t) : (name, t) ∈ subst := by
  rw [imageOf] at found
  split at found
  · cases found
  · split at found
    · rename_i image known
      split at found
      · cases found
      · exact Option.some.inj found ▸ Table.mem_of_get? known
    · cases found

theorem applyWithin_wellFormed (images : ∀ entry ∈ subst, entry.2.WellFormed) (steps : Nat)
    (wellFormed : t.WellFormed) : (subst.applyWithin steps passed t).WellFormed := by
  induction steps generalizing passed t with
  | zero =>
    refine Ty.mapVars_wellFormed (fun _ _ known => ?_) t wellFormed
    cases known
  | succ _ ih =>
    refine Ty.mapVars_wellFormed (fun name image known => ?_) t wellFormed
    obtain ⟨before, found, rfl⟩ := Option.map_eq_some_iff.mp known
    exact ih (images _ (mem_of_imageOf found))

theorem apply_wellFormed (images : ∀ entry ∈ subst, entry.2.WellFormed)
    (wellFormed : t.WellFormed) : (subst.apply t).WellFormed := by
  rw [apply]
  split
  · exact wellFormed
  · exact applyWithin_wellFormed images _ wellFormed

end Subst

end Stubwise
