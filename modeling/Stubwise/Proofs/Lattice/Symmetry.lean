import Stubwise.Proofs.Lattice.Interchange

/-!
Joins in either order. A join chooses by text between types below each other, and by place between
arms below each other.
-/

namespace Stubwise

open List

namespace Ty

/-- Arms as they come in a union in normal form, however few. -/
structure Arranged (arms : List Ty) : Prop where
  plain : ∀ arm ∈ arms, arm.isArm = true
  apart : arms.Pairwise fun a b => a.identical b = false
  ordered : arms.Pairwise fun a b => a.text ≤ b.text

variable {arms kept : List Ty}

theorem Arranged.sublist (arranged : Arranged arms) (part : kept.Sublist arms) : Arranged kept :=
  ⟨fun arm listed => arranged.plain arm (part.mem listed), arranged.apart.sublist part,
    arranged.ordered.sublist part⟩

theorem Arranged.unionOf_eq (arranged : Arranged arms) : unionOf arms = ofArms arms := by
  refine unionOf_of_ordered ?_ ?_ arranged.apart arranged.ordered
  · exact any_eq_false.mpr fun t listed => by simp [isAny_of_isArm (arranged.plain t listed)]
  · rw [flatMap_congr fun t listed => arms_of_isArm (arranged.plain t listed), flatMap_singleton']

theorem arranged_sorted {types : List Ty} (plain : ∀ t ∈ types, t.isArm = true) :
    Arranged (sortByText (distinct types)) :=
  ⟨fun t listed => plain t (mem_of_mem_distinct (sortByText_perm.mem_iff.mp listed)),
    sortByText_distinct_apart, sortByText_ordered⟩

end Ty

namespace Lattice

open Registry Ty

theorem absorb_of_isArm {sub : Ty → Ty → Run Bool} {t : Ty} (plain : t.isArm) : absorb sub t = pure t := by
  cases t with
  | union => cases plain
  | _ => rfl

section Absorb

variable {registry : Registry} {sub : Ty → Ty → Run Bool} {rel : Ty → Ty → Prop}
  (same : ∀ {x y}, rel x y → x.identical y = true)
  (asks : ∀ {x y z w}, rel x y → rel z w → Together registry Eq (sub x z) (sub y w))
include same asks

theorem redundantArm_together {x y : Ty} {others others' : List Ty} (index place : Nat)
    (arm : rel x y) (each : List.Forall₂ rel others others') :
    Together registry Eq (redundantArm sub index x place others)
      (redundantArm sub index y place others') := by
  induction each generalizing place with
  | nil => exact together_pure rfl
  | @cons other other' _ _ here _ ih =>
    have later := ih (place + 1)
    rw [redundantArm, redundantArm, identical_congr (same arm), identical_comm,
      identical_congr (same here), identical_comm]
    split
    · exact later
    · refine (asks arm here).branch ((asks here arm).bind fun {above _} equal => ?_) later
      subst equal
      split
      · exact together_pure rfl
      · exact later

theorem keptArms_together {arms arms' rest rest' : List Ty} (index : Nat)
    (each : List.Forall₂ rel arms arms') (left : List.Forall₂ rel rest rest') :
    Together registry
      (fun kept kept' => List.Forall₂ rel kept kept' ∧ kept.Sublist rest ∧ kept'.Sublist rest')
      (keptArms sub arms index rest) (keptArms sub arms' index rest') := by
  induction left generalizing index with
  | nil => exact together_pure ⟨.nil, .slnil, .slnil⟩
  | cons here _ ih =>
    refine (redundantArm_together same asks index 0 here each).bind fun {found _} equal => ?_
    subst equal
    split
    · exact (ih (index + 1)).imp fun _ rest => rest.imp fun _ found =>
        ⟨found.1, found.2.1.cons _, found.2.2.cons _⟩
    · refine (ih (index + 1)).bind fun {kept kept'} found => together_pure ?_
      exact ⟨.cons here found.1, found.2.1.cons_cons _, found.2.2.cons_cons _⟩

theorem absorb_together {arms arms' : List Ty} (left : Arranged arms) (right : Arranged arms')
    (each : List.Forall₂ rel arms arms') :
    Together registry (·.identical · = true) (absorb sub (ofArms arms)) (absorb sub (ofArms arms')) := by
  rcases each with _ | @⟨t, t', _, _, here, _ | ⟨second, rest⟩⟩
  · exact together_pure rfl
  · rw [ofArms, ofArms, absorb_of_isArm (left.plain t mem_cons_self),
      absorb_of_isArm (right.plain t' mem_cons_self)]
    exact together_pure (same here)
  · have each := List.Forall₂.cons here (.cons second rest)
    refine (keptArms_together same asks 0 each each).bind fun {kept kept'} found => together_pure ?_
    rw [(left.sublist found.2.1).unionOf_eq, (right.sublist found.2.2).unionOf_eq]
    exact ofArms_identical (found.1.imp fun _ _ => same)

end Absorb

end Lattice

namespace World

open Registry Ty Stubwise.Lattice

variable {registry : Registry} {a b : Ty}

theorem discernible_of_texts {types : List Ty}
    (texts : ∀ x ∈ types, ∀ y ∈ types, x.text = y.text ↔ x.identical y = true) :
    Discernible types := by
  intro x xListed y yListed differ order x' xListed' y' yListed' xSame ySame
  rw [← (texts x xListed x' xListed').mpr xSame, ← (texts y yListed y' yListed').mpr ySame]
  refine String.not_le.mp fun early => ?_
  rw [(texts x xListed y yListed).mp (String.le_antisymm order early)] at differ
  cases differ

/-- The order of the two types only orders the arms that stay. -/
theorem absorb_commutes (plain : registry.nominal) (left : a.Regular) (right : b.Regular)
    (known : a.isAny = false) (known' : b.isAny = false) (tell : Discernible (a.arms ++ b.arms))
    (likewise : ∀ x ∈ a.arms ++ b.arms, ∀ y ∈ a.arms ++ b.arms, x.identical y = true → ∀ z ∈ a.arms ++ b.arms,
        (world.isSubtype x z).run registry = (world.isSubtype y z).run registry) :
    Together registry (·.identical · = true) (absorb world.isSubtype (unionOf [a, b]))
      (absorb world.isSubtype (unionOf [b, a])) := by
  have perm : (a.arms ++ b.arms).Perm (b.arms ++ a.arms) := perm_append_comm
  have arm : ∀ t ∈ a.arms ++ b.arms, t.isArm = true ∧ t.objectFree = true := by
    intro t listed
    rcases mem_append.mp listed with listed | listed
    · exact ⟨left.wellFormed.arms_isArm known listed, arms_objectFree left.free t listed⟩
    · exact ⟨right.wellFormed.arms_isArm known' listed, arms_objectFree right.free t listed⟩
  have united : unionOf [a, b] = ofArms (sortByText (distinct (a.arms ++ b.arms))) := by
    rw [unionOf_eq_ofArms (by simp [known, known'])]
    simp
  have united' : unionOf [b, a] = ofArms (sortByText (distinct (b.arms ++ a.arms))) := by
    rw [unionOf_eq_ofArms (by simp [known, known'])]
    simp
  have kept {types : List Ty} {t : Ty} (listed : t ∈ sortByText (distinct types)) : t ∈ types :=
    mem_of_mem_distinct (sortByText_perm.mem_iff.mp listed)
  rw [united, united']
  refine @absorb_together registry _
    (fun x y => x ∈ a.arms ++ b.arms ∧ y ∈ a.arms ++ b.arms ∧ x.identical y = true)
    (fun both => both.2.2) ?_ _ _ (arranged_sorted fun t inside => (arm t inside).1)
    (arranged_sorted fun t inside => (arm t (perm.mem_iff.mpr inside)).1) ?_
  · rintro x y z w ⟨xListed, yListed, same⟩ ⟨zListed, wListed, same'⟩
    have free := fun t inside => (arm t inside).2
    refine (isSubtype_settled plain x z (free x xListed) (free z zListed)).together
      (isSubtype_settled plain y w (free y yListed) (free w wListed)) ?_
    rintro _ _ rfl rfl
    rw [← answer_congr_right plain (free y yListed) ⟨same', free z zListed, free w wListed⟩, answer,
      likewise x xListed y yListed same z zListed, answer]
  · have sorted := tell.sorted perm
    refine forall₂_iff_zip.mpr ⟨sorted.length_eq, fun {x y} inside => ?_⟩
    have listed := of_mem_zip inside
    exact ⟨kept listed.1, perm.mem_iff.mpr (kept listed.2), (forall₂_iff_zip.mp sorted).2 inside⟩

/-- Without protocols the join does not depend on the order of two types whose arms are written
alike just when they are identical, if identical arms lie below the same arms and the whole types
are told apart by their texts too. -/
theorem join_commutes (plain : registry.nominal) (left : a.Regular) (right : b.Regular)
    (texts : ∀ x ∈ a.arms ++ b.arms, ∀ y ∈ a.arms ++ b.arms,
      x.text = y.text ↔ x.identical y = true)
    (likewise : ∀ x ∈ a.arms ++ b.arms, ∀ y ∈ a.arms ++ b.arms, x.identical y = true →
      ∀ z ∈ a.arms ++ b.arms,
        (world.isSubtype x z).run registry = (world.isSubtype y z).run registry)
    (decided : a.text = b.text → a.identical b = true) :
    ∃ first second, (world.join a b).run registry = .ok (first, registry) ∧
      (world.join b a).run registry = .ok (second, registry) ∧ first.identical second = true := by
  suffices both : Together registry (·.identical · = true) (world.join a b) (world.join b a) by
    obtain ⟨first, ⟨second, same, ranRight⟩, ranLeft⟩ := both
    exact ⟨first, second, ranLeft, ranRight, same⟩
  rw [join, join, joinWith_eq left.free right.free, joinWith_eq right.free left.free,
    Bool.or_comm b.isAny, identical_comm b a]
  split
  · exact together_pure rfl
  rename_i known
  simp only [Bool.or_eq_true, not_or, Bool.not_eq_true] at known
  split
  · rename_i same
    exact together_pure same
  rename_i differ
  have below := isSubtype_settled plain a b left.free right.free
  have above := isSubtype_settled plain b a right.free left.free
  refine (below.together above And.intro).bind fun {x y} asked => ?_
  refine (above.together below And.intro).bind fun {z w} asked' => ?_
  obtain ⟨rfl, rfl⟩ := asked
  obtain ⟨rfl, rfl⟩ := asked'
  cases answer registry world.isSubtype a b <;> cases answer registry world.isSubtype b a
  · exact absorb_commutes plain left right known.1 known.2 (discernible_of_texts texts) likewise
  · exact together_pure (identical_refl a)
  · exact together_pure (identical_refl b)
  · refine together_pure ?_
    by_cases early : a.text < b.text <;> by_cases late : b.text < a.text
    · exact absurd late (String.lt_asymm early)
    · rw [if_pos early, if_neg late]
      exact identical_refl a
    · rw [if_neg early, if_pos late]
      exact identical_refl b
    · have equal := String.le_antisymm (String.not_lt.mp late) (String.not_lt.mp early)
      exact absurd (decided equal) differ

/-- `Box[str] | T` and `Iter[str] | T`, with a common arm. -/
theorem join_commutes_with_common_arm :
    let first : Ty := .union [.app (inModule "Box") [.strType], .var "T" none]
    let second : Ty := .union [.app (inModule "Iter") [.strType], .var "T" none]
    first.Regular ∧ second.Regular ∧ first.text ≠ second.text ∧
    (∀ x ∈ first.arms ++ second.arms, ∀ y ∈ first.arms ++ second.arms,
      x.text = y.text ↔ x.identical y = true) ∧
    ∃ x y, (world.join first second).run boxes = .ok (x, boxes) ∧
      (world.join second first).run boxes = .ok (y, boxes) ∧ x.identical y = true := by
  intro first second
  have left : first.Regular :=
    ⟨rfl, by decide, ⟨trivial, trivial⟩, trivial, trivial⟩
  have right : second.Regular :=
    ⟨rfl, by decide, ⟨trivial, trivial⟩, trivial, trivial⟩
  have texts : ∀ x ∈ first.arms ++ second.arms, ∀ y ∈ first.arms ++ second.arms,
      x.text = y.text ↔ x.identical y = true := by decide
  have differ : first.text ≠ second.text := by decide
  refine ⟨left, right, differ, texts, join_commutes rfl left right texts ?_ (absurd · differ)⟩
  intro x xListed y yListed same z _
  have equal : x = y := by
    simp [first, second, arms] at xListed yListed
    rcases xListed with rfl | rfl | rfl | rfl <;> rcases yListed with rfl | rfl | rfl | rfl <;>
      first | rfl | cases same
  rw [equal]

def pair : Ty := .tuple [.builtin "int", .builtin "int"]

def single : Ty := .tuple [.builtin "int"]

/-- A variable is dropped for its bound, while one of the same name with no bound is kept. Which of
the two a join looks at depends on the order. -/
theorem join_goes_by_first_bound :
    let bounded : Ty := .var "T" (some single)
    let free : Ty := .var "T" none
    let first : Ty := .union [bounded, pair]
    let second : Ty := .union [free, single]
    (first.Regular ∧ second.Regular ∧ ∀ x ∈ first.arms ++ second.arms, ∀ y ∈ first.arms ++ second.arms,
        x.text = y.text ↔ x.identical y = true) ∧
    (world.join first second).run {} = .ok (.union [pair, single], {}) ∧
    (world.join second first).run {} = .ok (.union [free, pair, single], {}) := by
  intro bounded free first second
  have normal : Normal [pair, single] := by decide
  have normal' : Normal [free, pair, single] := by decide
  have dropped : unionOf [pair, single] = union [pair, single] := unionOf_of_normal rfl rfl normal
  have stays : unionOf [free, pair, single] = union [free, pair, single] :=
    unionOf_of_normal rfl rfl normal'
  have united : unionOf [first, second] = union [bounded, pair, single] := by
    rw [unionOf_eq_ofArms rfl, show distinct _ = [bounded, pair, single] from rfl,
      sortByText_of_ordered (by decide)]
    rfl
  have united' : unionOf [second, first] = union [free, pair, single] := by
    rw [unionOf_eq_ofArms rfl, show distinct _ = [free, single, pair] from rfl]
    have order : free.text ≤ single.text ∧ free.text ≤ pair.text ∧ ¬single.text ≤ pair.text := by
      decide
    simp [sortByText, mergeSort, List.MergeSort.Internal.splitInTwo, order, ofArms]
  have tuples : single.WellFormed ∧ pair.WellFormed := ⟨⟨trivial, trivial⟩, trivial, trivial, trivial⟩
  have left : first.Regular :=
    ⟨rfl, by decide, tuples.1, tuples.2, trivial⟩
  have right : second.Regular :=
    ⟨rfl, by decide, trivial, tuples.1, trivial⟩
  refine ⟨⟨left, right, by decide⟩, ?_⟩
  rw [join, join, joinWith_eq rfl rfl, joinWith_eq rfl rfl, joinPlain, joinPlain, united, united']
  simp +decide [absorb, keptArms, redundantArm, isSubtype, subtype_union_left, subtype_union_right,
    subtype_of_arms, allOf, anyOf, armBelow, first, second, bounded, free, pair,
    single] at dropped stays ⊢
  rw [dropped, stays]
  exact ⟨rfl, rfl⟩

end World

end Stubwise
