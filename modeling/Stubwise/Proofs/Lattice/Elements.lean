import Stubwise.Proofs.Lattice.Symmetry

namespace Stubwise

open List

namespace Lattice

open Ty

variable {below : Ty → Ty → Bool} {types seen : List Ty} {a b t : Ty}

/-- No type is below another one that is not identical to it. -/
def Unrelated (below : Ty → Ty → Bool) (types : List Ty) : Prop :=
  ∀ x ∈ types, ∀ y ∈ types, below x y = true → x.identical y = true

/-- A type whose arms are the types of a list, identical ones once. -/
structure Gathers (types : List Ty) (t : Ty) : Prop where
  regular : t.Regular
  known : t.isAny = false
  inside : ∀ arm ∈ t.arms, arm ∈ types
  covers : ∀ x ∈ types, ∃ arm ∈ t.arms, x.identical arm = true

theorem arms_ne_nil (formed : t.WellFormed) : t.arms ≠ [] := by
  cases t with
  | union arms =>
    intro none
    have several := formed.1.several
    rw [show arms = [] from none] at several
    cases several
  | _ => exact cons_ne_nil _ _

theorem gathers_arms (regular : t.Regular) (known : t.isAny = false) : Gathers t.arms t :=
  ⟨regular, known, fun _ => id, fun x listed => ⟨x, listed, x.identical_refl⟩⟩

theorem gathers_unionOf (listed : ∀ t ∈ types, t.Regular ∧ t.isAny = false)
    (some : types.flatMap arms ≠ []) : Gathers (types.flatMap arms) (unionOf types) := by
  have plain : ∀ arm ∈ types.flatMap arms, arm.isArm = true := by
    intro arm inside
    obtain ⟨t, known, inside⟩ := mem_flatMap.mp inside
    exact (listed t known).1.wellFormed.arms_isArm (listed t known).2 inside
  have arms := arms_unionOf_eq some plain
  have inside : ∀ arm ∈ (unionOf types).arms, arm ∈ types.flatMap Ty.arms := fun arm inside =>
    mem_of_mem_distinct (sortByText_perm.mem_iff.mp (arms ▸ inside))
  refine ⟨unionOf_regular fun t known => (listed t known).1, ?_, inside, fun x known => ?_⟩
  · refine Bool.eq_false_iff.mpr fun mentioned => ?_
    have whole := eq_any_of_isAny mentioned
    cases plain any (inside any (by rw [whole]; exact mem_cons_self))
  · obtain ⟨other, kept, same⟩ := exists_identical_distinct known
    exact ⟨other, by rw [arms]; exact sortByText_perm.mem_iff.mpr kept, same⟩

theorem Absorbed.known {result : Ty} (gathers : Gathers types t) (unrelated : Unrelated below types)
    (absorbed : Absorbed below t result) : result.isAny = false := by
  obtain ⟨kept, rfl, part, stays⟩ := absorbed
  have listed : ∀ arm ∈ kept, arm.Regular ∧ arm.isAny = false := fun arm listed =>
    ⟨⟨arms_objectFree gathers.regular.free arm (part.mem listed),
      gathers.regular.wellFormed.arms (part.mem listed)⟩,
      isAny_of_isArm (gathers.regular.wellFormed.arms_isArm gathers.known (part.mem listed))⟩
  obtain ⟨arm, inside⟩ := exists_mem_of_ne_nil _ (arms_ne_nil gathers.regular.wellFormed)
  obtain ⟨place, there⟩ := mem_iff_getElem?.mp inside
  have stayed : arm ∈ kept := by
    refine stays place arm there ?_
    rintro ⟨_, other, found, outdone⟩
    have same := unrelated arm (gathers.inside arm inside) other
      (gathers.inside other (mem_of_getElem? found)) outdone.isBelow
    cases same.symm.trans outdone.differ
  have listed' : arm ∈ kept.flatMap arms := by
    refine mem_flatMap.mpr ⟨arm, stayed, ?_⟩
    rw [arms_of_isArm (gathers.regular.wellFormed.arms_isArm gathers.known inside)]
    exact mem_cons_self
  exact (gathers_unionOf listed (ne_nil_of_mem listed')).known

/-- The join with an unrelated type gathers its arms too. -/
theorem Joined.gathers (gradual : Gradual below) {both : Ty} (left : Gathers seen a)
    (right : b.Regular) (known : b.isAny = false) (unrelated : Unrelated below (seen ++ b.arms))
    (joined : Joined below a b both) : Gathers (seen ++ b.arms) both := by
  have listed : ∀ t ∈ [a, b], t.Regular ∧ t.isAny = false := by
    simp [left.regular, left.known, right, known]
  have flat : [a, b].flatMap arms = a.arms ++ b.arms := by simp
  have within : ∀ x ∈ a.arms ++ b.arms, x ∈ seen ++ b.arms := fun x inside =>
    mem_append.mpr ((mem_append.mp inside).imp_left (left.inside x))
  have unrelated' : Unrelated below (a.arms ++ b.arms) := fun x first y second =>
    unrelated x (within x first) y (within y second)
  have transitive : TransitiveOn below (a.arms ++ b.arms) := by
    intro x first y second z third low high
    have plain : ∀ t ∈ a.arms ++ b.arms, t.objectFree = true ∧ t.isArm = true := by
      simp only [← flat, mem_flatMap]
      rintro t ⟨whole, inList, inside⟩
      obtain ⟨regular, known⟩ := listed whole inList
      exact ⟨arms_objectFree regular.free t inside, regular.wellFormed.arms_isArm known inside⟩
    exact gradual.identical x z (plain x first).1 (plain z third).1 (plain x first).2
      (identical_trans x y z (unrelated' x first y second low) (unrelated' y second z third high))
  have united := flat ▸ gathers_unionOf listed (by simp [arms_ne_nil right.wellFormed])
  obtain ⟨covers, inside⟩ := joined.covers gradual left.regular right fun _ _ => transitive
  have single : both.isAny = false := by
    cases joined with
    | any mentioned => simp [left.known, known] at mentioned
    | same | left => exact left.known
    | right => exact known
    | whole => exact united.known
    | absorbed _ kept => exact kept.known united unrelated'
  simp only [Covers, single, Bool.false_eq_true, false_or] at covers
  have covered (x : Ty) (there : x ∈ a.arms ++ b.arms) : ∃ arm ∈ both.arms, x.identical arm = true := by
    obtain ⟨other, listed, low⟩ := covers x there
    exact ⟨other, listed, unrelated' x there other (inside single other listed) low⟩
  refine ⟨joined.regular left.regular right, single,
    fun arm there => within arm (inside single arm there), fun x there => ?_⟩
  rcases mem_append.mp there with early | late
  · obtain ⟨arm, listed, same⟩ := left.covers x early
    obtain ⟨other, listed, same'⟩ := covered arm (mem_append_left _ listed)
    exact ⟨other, listed, identical_trans x arm other same same'⟩
  · exact covered x (mem_append_right _ late)

theorem JoinedFrom.gathers (gradual : Gradual below) {rest : List Ty} {result : Option Ty}
    (steps : JoinedFrom below (some a) rest result) (left : Gathers seen a)
    (listed : ∀ t ∈ rest, t.Regular ∧ t.isAny = false)
    (unrelated : Unrelated below (seen ++ rest.flatMap arms)) :
    ∃ last, result = some last ∧ Gathers (seen ++ rest.flatMap arms) last := by
  induction rest generalizing a seen with
  | nil =>
    cases steps
    exact ⟨a, rfl, by simpa using left⟩
  | cons t rest ih =>
    cases steps with
    | next step later =>
      obtain ⟨⟨regular, known⟩, listed⟩ := forall_mem_cons.mp listed
      rw [flatMap_cons, ← append_assoc] at unrelated ⊢
      refine ih later (step.gathers gradual left regular known ?_) listed unrelated
      exact fun x inside y there =>
        unrelated x (mem_append_left _ inside) y (mem_append_left _ there)

theorem Gathers.arranged (gathers : Gathers types t) : Arranged t.arms ∧ ofArms t.arms = t := by
  have plain := fun arm => @WellFormed.arms_isArm t arm gathers.regular.wellFormed gathers.known
  cases t with
  | union =>
    have normal := gathers.regular.wellFormed.1
    exact ⟨⟨plain, normal.apart, normal.ordered⟩, ofArms_of_several normal.several⟩
  | _ => exact ⟨⟨plain, pairwise_singleton .., pairwise_singleton ..⟩, rfl⟩

theorem Gathers.identical (left : Gathers types a) (right : Gathers types b)
    (tell : Discernible types) : a.identical b = true := by
  obtain ⟨first, whole⟩ := left.arranged
  obtain ⟨second, whole'⟩ := right.arranged
  have same := tell.forall₂ (fun x inside => ⟨left.inside x inside, right.covers x (left.inside x inside)⟩)
    (fun x inside => ⟨right.inside x inside, left.covers x (right.inside x inside)⟩)
    first.apart second.apart first.ordered second.ordered
  rw [← whole, ← whole']
  exact ofArms_identical same

theorem Joined.eq_any (gradual : Gradual below) {both : Ty} (left : a.objectFree) (right : b.objectFree)
    (mentioned : .any ∈ [a, b]) (joined : Joined below a b both) : both = .any := by
  have low (t : Ty) (free : t.objectFree) (isBelow : below .any t) : t = .any := by
    cases known : t.isAny with
    | true => exact eq_any_of_isAny known
    | false => cases (gradual.any_left t free known).symm.trans isBelow
  have whole : unionOf [a, b] = .any :=
    unionOf_of_any (any_eq_true.mpr ⟨_, mentioned, rfl⟩)
  rcases mem_pair.mp mentioned with rfl | rfl
  · cases joined with
    | any | same | left => rfl
    | right isBelow => exact low b right isBelow
    | whole => exact whole
    | absorbed apart => cases apart.2.symm.trans (gradual.any_right b right)
  · cases joined with
    | any | right => rfl
    | same identical => exact eq_any_of_isAny ((isAny_of_identical identical).symm)
    | left isBelow => exact low a left isBelow
    | whole => exact whole
    | absorbed apart => cases apart.1.symm.trans (gradual.any_right a left)

theorem JoinedFrom.eq_any (gradual : Gradual below) {rest : List Ty} {result : Option Ty}
    (steps : JoinedFrom below (some a) rest result) (free : ∀ t ∈ a :: rest, t.objectFree = true)
    (mentioned : .any ∈ a :: rest) : result = some .any := by
  induction rest generalizing a with
  | nil =>
    cases steps
    rw [mem_singleton.mp mentioned]
  | cons t rest ih =>
    obtain ⟨left, right, others⟩ := by simpa only [forall_mem_cons] using free
    cases steps with
    | next step later =>
      refine ih later (forall_mem_cons.mpr ⟨step.objectFree left right, others⟩) ?_
      rcases mem_cons.mp mentioned with rfl | behind
      · rw [step.eq_any gradual left right mem_cons_self]
        exact mem_cons_self
      rcases mem_cons.mp behind with rfl | behind
      · rw [step.eq_any gradual left right (mem_cons_of_mem _ mem_cons_self)]
        exact mem_cons_self
      · exact mem_cons_of_mem _ behind

end Lattice

namespace World

open Registry Ty Stubwise.Lattice

variable {registry : Registry}

/-- Without protocols the class of a tuple is applied to the join of the elements, if one of them is
`Any`, or if no arm of an element lies below another arm, and different arms are told apart by their
texts. -/
theorem tuple_argument_is_join (plain : registry.nominal) {elements : List Ty}
    (listed : ∀ t ∈ elements, t.Regular)
    (apart : .any ∉ elements → Unrelated (answer registry world.isSubtype) (elements.flatMap arms) ∧
      Discernible (elements.flatMap arms)) :
    ∃ argument joined,
      (world.asInstanceOf (.tuple elements) .tuple).run registry = .ok (some [argument], registry) ∧
      (world.joinAll elements).run registry = .ok (joined, registry) ∧
      argument.identical joined = true := by
  obtain ⟨_, ⟨result, steps, rfl⟩, ran⟩ := joinAllWith_gives (isSubtype_settled plain)
    fun t known => (listed t known).free
  refine ⟨unionOf elements, _, rfl, ran, ?_⟩
  cases steps with
  | done => rfl
  | @first first rest _ later =>
    by_cases mentioned : .any ∈ first :: rest
    · rw [later.eq_any (isSubtype_gradual plain) (fun t known => (listed t known).free) mentioned,
        unionOf_of_any (any_eq_true.mpr ⟨_, mentioned, rfl⟩)]
      rfl
    · obtain ⟨unrelated, tell⟩ := apart mentioned
      have known : ∀ t ∈ first :: rest, t.Regular ∧ t.isAny = false := fun t inside =>
        ⟨listed t inside, Bool.eq_false_iff.mpr fun isAny => mentioned (eq_any_of_isAny isAny ▸ inside)⟩
      obtain ⟨⟨regular, plainly⟩, others⟩ := forall_mem_cons.mp known
      obtain ⟨last, rfl, gathers⟩ :=
        later.gathers (isSubtype_gradual plain) (gathers_arms regular plainly) others unrelated
      exact (gathers_unionOf known (by simp [arms_ne_nil regular.wellFormed])).identical gathers tell

theorem tuple_argument_is_join_of_classes :
    let box : Ty := .app (inModule "Box") [.strType]
    let elements : List Ty := [box, .strType]
    Unrelated (answer boxes world.isSubtype) (elements.flatMap arms) ∧
    ∃ argument joined,
      (world.asInstanceOf (.tuple elements) .tuple).run boxes = .ok (some [argument], boxes) ∧
      (world.joinAll elements).run boxes = .ok (joined, boxes) ∧ argument.identical joined = true := by
  intro box elements
  have unrelated : Unrelated (answer boxes world.isSubtype) (elements.flatMap arms) := by
    have flat : elements.flatMap arms = [box, .strType] := rfl
    rw [flat]
    simp only [Unrelated, mem_cons, not_mem_nil, or_false, forall_eq_or_imp, forall_eq]
    refine ⟨⟨fun _ => rfl, fun low => ?_⟩, fun low => ?_, fun _ => rfl⟩
    · have apart : (world.isSubtype box .strType).run boxes = .ok (false, boxes) := by
        rw [isSubtype, subtype_of_arms _ _ rfl rfl]
        rfl
      cases (answer_of_run apart).symm.trans low
    · have apart : (world.isSubtype .strType box).run boxes = .ok (false, boxes) := by
        rw [isSubtype, subtype_of_arms _ _ rfl rfl]
        rfl
      cases (answer_of_run apart).symm.trans low
  have listed : ∀ t ∈ elements, t.Regular :=
    forall_mem_cons.mpr ⟨⟨rfl, trivial, trivial⟩, forall_mem_singleton.mpr ⟨rfl, trivial⟩⟩
  exact ⟨unrelated, tuple_argument_is_join rfl listed fun _ =>
    ⟨unrelated, discernible_of_texts (by decide)⟩⟩

def truths : Registry where
  classes := [("builtins.bool", { cls := { ref := .builtin "bool", bases := [.builtin "int"] } })]

/-- An element below another one is left out of the join, and not of the argument. -/
theorem tuple_argument_keeps_lower_element :
    let elements : List Ty := [.builtin "bool", .builtin "int"]
    truths.nominal = true ∧
    (world.asInstanceOf (.tuple elements) .tuple).run truths = .ok (some [.union elements], truths) ∧
    (world.joinAll elements).run truths = .ok (.builtin "int", truths) := by
  intro elements
  have argument : unionOf elements = .union elements :=
    unionOf_of_normal rfl rfl (by decide)
  refine ⟨rfl, ?_, ?_⟩
  · rw [← argument]
    rfl
  · have low : (world.isSubtype (.builtin "bool") (.builtin "int")).run truths =
        .ok (true, truths) := by
      rw [isSubtype, subtype_of_arms _ _ rfl rfl]
      rfl
    have high : (world.isSubtype (.builtin "int") (.builtin "bool")).run truths =
        .ok (false, truths) := by
      rw [isSubtype, subtype_of_arms _ _ rfl rfl]
      rfl
    simp only [joinAll, joinAllWith, joinFrom, joinOption, pure_bind, bind_assoc, elements]
    rw [joinWith_eq rfl rfl, if_neg (by decide), if_neg (by decide), joinPlain]
    simp only [bind_assoc]
    rw [run_bind_of_ok low, run_bind_of_ok high]
    rfl

end World

end Stubwise
