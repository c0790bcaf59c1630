import Stubwise.Proofs.Lattice.Coverage

/-!
Unions of the same types in another order. Arms are ordered by their texts, while identity goes by
qualified names.
-/

namespace Stubwise

open List

namespace Ty

variable {types left right : List Ty}

theorem allIdentical_iff :
    allIdentical left right = true ↔ List.Forall₂ (·.identical · = true) left right := by
  induction left generalizing right with
  | nil => cases right <;> simp [allIdentical]
  | cons _ _ ih => cases right <;> simp [allIdentical, ih]

/-- Types that are not identical are written differently, and in one order for all the types
identical to them. -/
def Discernible (types : List Ty) : Prop :=
  ∀ a ∈ types, ∀ b ∈ types, a.identical b = false → a.text ≤ b.text →
    ∀ a' ∈ types, ∀ b' ∈ types, a.identical a' = true → b.identical b' = true → a'.text < b'.text

/-- Types that stand for the same identities in the order of their texts correspond one by one. -/
theorem Discernible.forall₂ (tell : Discernible types)
    (fromLeft : ∀ a ∈ left, a ∈ types ∧ ∃ b ∈ right, a.identical b = true)
    (fromRight : ∀ b ∈ right, b ∈ types ∧ ∃ a ∈ left, b.identical a = true)
    (leftApart : left.Pairwise fun a b => a.identical b = false)
    (rightApart : right.Pairwise fun a b => a.identical b = false)
    (leftOrdered : left.Pairwise fun a b => a.text ≤ b.text)
    (rightOrdered : right.Pairwise fun a b => a.text ≤ b.text) :
    List.Forall₂ (·.identical · = true) left right := by
  induction left generalizing right with
  | nil =>
    cases right with
    | nil => exact .nil
    | cons b =>
      obtain ⟨_, a, none, _⟩ := fromRight b mem_cons_self
      cases none
  | cons a _ ih =>
    cases right with
    | nil =>
      obtain ⟨_, b, none, _⟩ := fromLeft a mem_cons_self
      cases none
    | cons b =>
      simp only [pairwise_cons] at leftApart rightApart leftOrdered rightOrdered
      obtain ⟨⟨aKnown, a', aListed, aSame⟩, fromLeft⟩ := forall_mem_cons.mp fromLeft
      obtain ⟨⟨bKnown, b', bListed, bSame⟩, fromRight⟩ := forall_mem_cons.mp fromRight
      -- Otherwise each of the two first types is behind the other one on the other side.
      have heads : a.identical b = true := by
        rcases mem_cons.mp aListed with rfl | aLater
        · exact aSame
        rcases mem_cons.mp bListed with rfl | bLater
        · rw [identical_comm]
          exact bSame
        have early := tell b bKnown a' (fromRight a' aLater).1 (rightApart.1 a' aLater)
          (rightOrdered.1 a' aLater) b' (fromLeft b' bLater).1 a aKnown bSame
          (identical_comm a a' ▸ aSame)
        exact absurd early (String.not_lt.mpr (leftOrdered.1 b' bLater))
      refine .cons heads (ih ?_ ?_ leftApart.2 rightApart.2 leftOrdered.2 rightOrdered.2)
      · intro t listed
        obtain ⟨known, t', there, same⟩ := fromLeft t listed
        refine ⟨known, t', (mem_cons.mp there).resolve_left ?_, same⟩
        rintro rfl
        have apart := leftApart.1 t listed
        rw [identical_congr heads, identical_comm, same] at apart
        cases apart
      · intro t listed
        obtain ⟨known, t', there, same⟩ := fromRight t listed
        refine ⟨known, t', (mem_cons.mp there).resolve_left ?_, same⟩
        rintro rfl
        have apart := rightApart.1 t listed
        rw [← identical_congr heads, identical_comm, same] at apart
        cases apart

theorem sortByText_distinct_apart :
    (sortByText (distinct types)).Pairwise fun a b => a.identical b = false :=
  (sortByText_perm.pairwise_iff fun apart => identical_comm _ _ ▸ apart).mpr distinct_apart

theorem Discernible.sorted (tell : Discernible types) (perm : types.Perm left) :
    List.Forall₂ (·.identical · = true) (sortByText (distinct types)) (sortByText (distinct left)) := by
  have partner {first second : List Ty} (perm : first.Perm second) (a : Ty)
      (listed : a ∈ sortByText (distinct first)) :
      a ∈ first ∧ ∃ b ∈ sortByText (distinct second), a.identical b = true := by
    have known := mem_of_mem_distinct (sortByText_perm.mem_iff.mp listed)
    obtain ⟨b, kept, same⟩ := exists_identical_distinct (perm.mem_iff.mp known)
    exact ⟨known, b, sortByText_perm.mem_iff.mpr kept, same⟩
  refine tell.forall₂ (partner perm) (fun b listed => ?_) sortByText_distinct_apart
    sortByText_distinct_apart sortByText_ordered sortByText_ordered
  exact (partner perm.symm b listed).imp_left perm.mem_iff.mpr

theorem ofArms_identical (same : List.Forall₂ (·.identical · = true) left right) :
    (ofArms left).identical (ofArms right) = true := by
  rcases same with _ | ⟨head, _ | ⟨second, rest⟩⟩
  · rfl
  · exact head
  · exact allIdentical_iff.mpr (.cons head (.cons second rest))

theorem Discernible.unionOf_identical (tell : Discernible (types.flatMap arms))
    (perm : types.Perm left) : (unionOf types).identical (unionOf left) = true := by
  cases known : types.any isAny with
  | true => rw [unionOf_of_any known, unionOf_of_any (perm.any_eq ▸ known), identical]
  | false =>
    rw [unionOf_eq_ofArms known, unionOf_eq_ofArms (perm.any_eq ▸ known)]
    exact ofArms_identical (tell.sorted (perm.flatMap_right arms))

theorem unionOf_eq_any_of_perm (each : ∀ t ∈ types, t.WellFormed) (perm : types.Perm left)
    (known : (unionOf types).isAny) : unionOf left = any := by
  cases mentioned : types.any isAny with
  | true => exact unionOf_of_any (perm.any_eq ▸ mentioned)
  | false =>
    rcases unionOf_cases mentioned with ⟨none, _⟩ | ⟨single, only, all⟩ | ⟨_, all⟩
    · have empty : left.flatMap arms = [] := by
        refine eq_nil_iff_forall_not_mem.mpr fun arm listed => ?_
        obtain ⟨_, kept, _⟩ := exists_identical_distinct ((perm.flatMap_right arms).mem_iff.mpr listed)
        rw [none] at kept
        cases kept
      simp [unionOf, empty, distinct]
    · obtain ⟨whole, there, inside⟩ := mem_arms_of_mem_distinct (only ▸ mem_cons_self)
      have plain := (each whole there).arms_isArm
        (Bool.eq_false_iff.mpr (any_eq_false.mp mentioned whole there)) inside
      rw [all, isAny_of_isArm plain] at known
      cases known
    · rw [all] at known
      cases known

end Ty

namespace World

open Registry Stubwise.Lattice

variable {registry : Registry} {types other : List Ty}

theorem permuted_isSubtype (plain : registry.nominal) (listed : ∀ t ∈ types, t.Regular)
    (perm : types.Perm other) :
    (Registry.world.isSubtype (.unionOf types) (.unionOf other)).run registry = .ok (true, registry) := by
  have gradual := isSubtype_gradual plain
  have listed' : ∀ t ∈ other, t.Regular := fun t member => listed t (perm.mem_iff.mpr member)
  have left := unionOf_regular listed
  have right := unionOf_regular listed'
  refine isSubtype_of_answer plain left.free right.free ?_
  cases known : (Ty.unionOf types).isAny with
  | true =>
    rw [Ty.unionOf_eq_any_of_perm (fun t member => (listed t member).wellFormed) perm known]
    exact gradual.any_right _ left.free
  | false =>
    refine (gradual.below_iff left right known).mpr ?_
    refine (covers_unionOf gradual listed').imp_right fun each arm member => each arm ?_
    obtain ⟨t, inside, below⟩ :=
      Ty.mem_arms_of_mem_unionOf (fun t member => (listed t member).wellFormed) known member
    exact mem_flatMap.mpr ⟨t, perm.mem_iff.mp inside, below⟩

/-- Types in another order give an identical union if the texts tell the arms apart. Without
instances equality is identity. In any case the one union is a subtype of the other and can be bound
where the other is bound. -/
theorem permuted_union_one_type (registry : Registry) (types : List Ty) :
    (Ty.Discernible (types.flatMap Ty.arms) → ∀ other, types.Perm other →
      (Ty.unionOf types).identical (.unionOf other) = true) ∧
    (registry.nominal = true → (∀ t ∈ types, t.Regular) → ∀ other, types.Perm other →
      (Ty.unionOf types).equal (.unionOf other) = (Ty.unionOf types).identical (.unionOf other) ∧
      (Registry.world.isSubtype (.unionOf types) (.unionOf other)).run registry =
        .ok (true, registry) ∧
      ∀ bindings name, Table.get? bindings name = some (Ty.unionOf other) →
        (Registry.world.bind bindings name (.unionOf types)).run registry =
          .ok ((none, bindings), registry)) := by
  refine ⟨fun tell other perm => tell.unionOf_identical perm, fun plain listed other perm => ?_⟩
  have listed' : ∀ t ∈ other, t.Regular := fun t member => listed t (perm.mem_iff.mpr member)
  have below := permuted_isSubtype plain listed perm
  refine ⟨equal_eq_identical (unionOf_regular listed).free (unionOf_regular listed').free, below,
    fun bindings name bound => ?_⟩
  rw [World.bind, bindParam, bound]
  dsimp only
  split
  · rfl
  split
  · rfl
  · exact run_bind_of_ok below

def classIn (module name : String) : Ty :=
  .cls { module, name }

/-- `A`, `B` and `list[A]` in two orders. -/
theorem permuted_union_one_type_of_three :
    let types := [Ty.listOf (classIn "m" "A"), classIn "m" "B", classIn "m" "A"]
    (∀ t ∈ types, t.Regular) ∧
    (Ty.unionOf types).identical (.unionOf types.reverse) = true ∧
    (Ty.unionOf types).equal (.unionOf types.reverse) = true ∧
    (Registry.world.bind [("T", .unionOf types.reverse)] "T" (.unionOf types)).run {} =
      .ok ((none, [("T", .unionOf types.reverse)]), {}) := by
  intro types
  have regular : ∀ t ∈ types, t.Regular := by
    simp only [types, forall_mem_cons]
    exact ⟨⟨rfl, trivial, trivial⟩, ⟨rfl, trivial⟩, ⟨rfl, trivial⟩, forall_mem_nil _⟩
  have tell : Ty.Discernible (types.flatMap Ty.arms) := by
    rw [Ty.Discernible]
    decide
  have perm : types.Perm types.reverse := (reverse_perm types).symm
  obtain ⟨identical, further⟩ := permuted_union_one_type {} types
  obtain ⟨equal, _, bound⟩ := further rfl regular _ perm
  have same := identical tell _ perm
  exact ⟨regular, same, equal.trans same, bound _ _ rfl⟩

/-- Two classes of the same name in different modules keep the order in which they come. -/
theorem namesakes_stay_in_order :
    (Ty.unionOf [classIn "m" "A", classIn "n" "A"]).identical
      (.unionOf [classIn "n" "A", classIn "m" "A"]) = false := by
  rw [Ty.unionOf_of_normal rfl rfl (by decide),
    Ty.unionOf_of_normal rfl rfl (by decide)]
  decide

end World

end Stubwise
