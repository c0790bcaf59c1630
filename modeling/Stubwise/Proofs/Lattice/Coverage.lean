import Mathlib.Data.Fintype.Card
import Stubwise.Proofs.Lattice.NormalForm

/-!
What a join is above. Subtyping with `Any` in arguments is not transitive, so that a type may be
below an arm that is dropped for another one.
-/

namespace Stubwise

open List Ty

variable {holds : Bool} {others seen types : List Ty} {result : Option Ty} {both joined : Ty}

namespace Lattice

variable {below : Ty → Ty → Bool} {a b t arm : Ty} {arms : List Ty}

/-- How a relation between types treats `Any`, unions and identical types. -/
structure Gradual (below : Ty → Ty → Bool) : Prop where
  any_right : ∀ a : Ty, a.objectFree = true → below a .any = true
  any_left : ∀ b : Ty, b.objectFree = true → b.isAny = false → below .any b = false
  union_left : ∀ (arms : List Ty) (b : Ty), allObjectFree arms = true → b.objectFree = true →
    b.isAny = false → below (.union arms) b = arms.all (below · b)
  union_right : ∀ (a : Ty) (arms : List Ty), a.objectFree = true → allObjectFree arms = true →
    a.isArm = true → below a (.union arms) = arms.any (below a ·)
  identical : ∀ a b : Ty, a.objectFree = true → b.objectFree = true → a.isArm = true →
    a.identical b = true → below a b = true

/-- Whether each of the arms is below an arm of a type. `Any` is above all. -/
def Covers (below : Ty → Ty → Bool) (t : Ty) (arms : List Ty) : Prop :=
  t.isAny = true ∨ ∀ arm ∈ arms, ∃ other ∈ t.arms, below arm other = true

theorem eq_any_of_isAny (known : t.isAny) : t = .any := by
  cases t with
  | any => rfl
  | _ => cases known

theorem Gradual.arm_below_iff (gradual : Gradual below) (left : a.objectFree)
    (right : b.objectFree) (plain : a.isArm) :
    below a b = true ↔ ∃ other ∈ b.arms, below a other = true := by
  cases b with
  | union arms =>
    rw [gradual.union_right a arms left right plain]
    exact any_eq_true
  | _ => simp [arms]

theorem Gradual.below_iff (gradual : Gradual below) (left : a.Regular) (right : b.Regular)
    (known : a.isAny = false) : below a b = true ↔ Covers below b a.arms := by
  cases mentioned : b.isAny with
  | true =>
    obtain rfl := eq_any_of_isAny mentioned
    exact ⟨fun _ => .inl rfl, fun _ => gradual.any_right a left.free⟩
  | false =>
    have plain : ∀ arm ∈ a.arms, arm.isArm = true := fun arm => left.wellFormed.arms_isArm known
    have free := arms_objectFree left.free
    have each : (∀ arm ∈ a.arms, below arm b = true) ↔ Covers below b a.arms := by
      rw [Covers, mentioned]
      simp only [Bool.false_eq_true, false_or]
      exact forall₂_congr fun arm member =>
        gradual.arm_below_iff (free arm member) right.free (plain arm member)
    rw [← each]
    cases a with
    | union arms =>
      rw [gradual.union_left arms b left.free right.free mentioned]
      exact all_eq_true
    | _ => simp [arms]

theorem Gradual.refl (gradual : Gradual below) (free : a.objectFree)
    (plain : a.isArm) : below a a = true :=
  gradual.identical a a free free plain a.identical_refl

/-- Whether a relation is transitive on a list of types. -/
def TransitiveOn (below : Ty → Ty → Bool) (types : List Ty) : Prop :=
  ∀ x ∈ types, ∀ y ∈ types, ∀ z ∈ types, below x y = true → below y z = true → below x z = true

theorem TransitiveOn.mono (transitive : TransitiveOn below others)
    (part : ∀ t ∈ types, t ∈ others) : TransitiveOn below types :=
  fun x first y second z third => transitive x (part x first) y (part y second) z (part z third)

section Absorption

/-- Whether an arm of a union makes another one redundant, both by their places. -/
def Outdoes (below : Ty → Ty → Bool) (arms : List Ty) (j i : Fin arms.length) : Prop :=
  Outdone below i (arms.get i) j (arms.get j)

/-- Of arms that are below each other the first stays, so that no circle of arms is dropped. -/
theorem Outdoes.trans (transitive : TransitiveOn below arms)
    (apart : arms.Pairwise fun a b => a.identical b = false) {i j k : Fin arms.length}
    (second : Outdoes below arms k j) (first : Outdoes below arms j i) :
    Outdoes below arms k i := by
  have step (i j k : Fin arms.length) := transitive _ (arms.get_mem i) _ (arms.get_mem j) _ (arms.get_mem k)
  -- If the three are below each other, their order decides.
  have prior : below (arms.get k) (arms.get i) = false ∨ (k : Nat) < i := by
    cases back : below (arms.get k) (arms.get i) with
    | false => exact .inl rfl
    | true =>
      have early := first.prior
      have earlier := second.prior
      rw [step j k i second.isBelow back] at early
      rw [step k i j back first.isBelow] at earlier
      simp only [Bool.true_eq_false, false_or] at early earlier ⊢
      omega
  have elsewhere : (i : Nat) ≠ k := by
    intro same
    obtain rfl := Fin.ext same
    have early := first.prior
    have earlier := second.prior
    rw [second.isBelow] at early
    rw [first.isBelow] at earlier
    simp only [Bool.true_eq_false, false_or] at early earlier
    omega
  refine ⟨elsewhere, ?_, step i j k first.isBelow second.isBelow, prior⟩
  rcases Nat.lt_or_gt_of_ne elsewhere with before | after
  · exact pairwise_iff_get.mp apart i k before
  · rw [identical_comm]
    exact pairwise_iff_get.mp apart k i after

/-- Each arm is below one that is not redundant. -/
theorem exists_needed (transitive : TransitiveOn below arms) (reflexive : ∀ arm ∈ arms, below arm arm = true)
    (apart : arms.Pairwise fun a b => a.identical b = false) (i : Fin arms.length) :
    ∃ j : Fin arms.length, below (arms.get i) (arms.get j) = true ∧ ¬Redundant below arms j (arms.get j) := by
  have : IsTrans (Fin arms.length) (Outdoes below arms) :=
    ⟨fun _ _ _ second first => second.trans transitive apart first⟩
  have : Std.Irrefl (Outdoes below arms) := ⟨fun _ outdone => outdone.elsewhere rfl⟩
  have : Finite (Fin arms.length) := .intro (Equiv.refl _)
  have wellFounded := Finite.wellFounded_of_trans_of_irrefl (Outdoes below arms)
  induction i using wellFounded.induction with
  | _ i ih =>
    by_cases needed : Redundant below arms i (arms.get i)
    · obtain ⟨place, other, known, outdone⟩ := needed
      obtain ⟨bound, rfl⟩ := List.getElem?_eq_some_iff.mp known
      obtain ⟨j, above, kept⟩ := ih ⟨place, bound⟩ outdone
      exact ⟨j, transitive _ (arms.get_mem i) _ (arms.get_mem ⟨place, bound⟩) _ (arms.get_mem j)
        outdone.isBelow above, kept⟩
    · exact ⟨i, reflexive _ (arms.get_mem i), needed⟩

end Absorption

section Joining

theorem Covers.append (first : Covers below t arms)
    (second : Covers below t others) : Covers below t (arms ++ others) := by
  rcases first with known | first
  · exact .inl known
  rcases second with known | second
  · exact .inl known
  · exact .inr fun arm member => (mem_append.mp member).elim (first arm) (second arm)

theorem Covers.trans {other : Ty} (transitive : TransitiveOn below types)
    (known : t.isAny = false) (first : Covers below t arms) (second : Covers below other t.arms)
    (inArms : ∀ arm ∈ arms, arm ∈ types) (inFirst : ∀ arm ∈ t.arms, arm ∈ types)
    (inSecond : other.isAny = false → ∀ arm ∈ other.arms, arm ∈ types) :
    Covers below other arms := by
  cases mentioned : other.isAny with
  | true => exact .inl mentioned
  | false =>
    simp only [Covers, known, mentioned, Bool.false_eq_true, false_or] at first second ⊢
    intro arm member
    obtain ⟨middle, inside, low⟩ := first arm member
    obtain ⟨top, above, high⟩ := second middle inside
    exact ⟨top, above, transitive arm (inArms arm member) middle (inFirst middle inside) top
      (inSecond mentioned top above) low high⟩

theorem unionOf_regular (listed : ∀ t ∈ types, t.Regular) :
    (unionOf types).Regular :=
  ⟨unionOf_objectFree fun t member => (listed t member).free,
    unionOf_wellFormed fun t member => (listed t member).wellFormed⟩

theorem Joined.regular (joined : Joined below a b both) (left : a.Regular)
    (right : b.Regular) : both.Regular := by
  have united : (unionOf [a, b]).WellFormed :=
    unionOf_wellFormed (by simp [left.wellFormed, right.wellFormed])
  refine ⟨joined.objectFree left.free right.free, ?_⟩
  cases joined with
  | any => trivial
  | same | left => exact left.wellFormed
  | right => exact right.wellFormed
  | whole => exact united
  | absorbed _ kept =>
    obtain ⟨arms, rfl, part, _⟩ := kept
    exact unionOf_wellFormed fun arm member => united.arms (part.mem member)

theorem transitiveOn_pair (reflexive : below a a = true ∧ below b b = true) : TransitiveOn below [a, b] := by
  intro x hx y hy z hz xy yz
  simp only [mem_cons, not_mem_nil, or_false] at hx hy hz
  rcases hx with rfl | rfl <;> rcases hy with rfl | rfl <;> rcases hz with rfl | rfl <;>
    first | assumption | exact reflexive.1 | exact reflexive.2

variable (gradual : Gradual below)
include gradual

theorem Absorbed.covers {whole result : Ty} (regular : whole.Regular)
    (known : whole.isAny = false) (transitive : TransitiveOn below whole.arms)
    (absorbed : Absorbed below whole result) :
    Covers below result whole.arms ∧ (result.isAny = false → ∀ arm ∈ result.arms, arm ∈ whole.arms) := by
  obtain ⟨kept, rfl, part, stays⟩ := absorbed
  have free := arms_objectFree regular.free
  have plain : ∀ arm ∈ whole.arms, arm.isArm = true := fun arm => regular.wellFormed.arms_isArm known
  have apart : whole.arms.Pairwise fun a b => a.identical b = false := by
    cases whole with
    | union => exact regular.wellFormed.1.apart
    | _ => exact pairwise_singleton ..
  have keptWellFormed : ∀ arm ∈ kept, arm.WellFormed := fun arm member =>
    regular.wellFormed.arms (part.mem member)
  have keptArms : ∀ arm ∈ kept, arm.arms = [arm] := fun arm member =>
    arms_of_isArm (plain arm (part.mem member))
  have fromKept (mentioned : (unionOf kept).isAny = false) :
      ∀ arm ∈ (unionOf kept).arms, arm ∈ whole.arms := by
    intro arm member
    obtain ⟨t, listed, same⟩ := mem_arms_of_mem_unionOf keptWellFormed mentioned member
    rw [keptArms t listed, mem_singleton] at same
    exact same ▸ part.mem listed
  refine ⟨?_, fromKept⟩
  cases mentioned : (unionOf kept).isAny with
  | true => exact .inl mentioned
  | false =>
    refine .inr fun arm member => ?_
    obtain ⟨i, rfl⟩ := get_of_mem member
    obtain ⟨j, above, needed⟩ := exists_needed transitive
      (fun arm member => gradual.refl (free arm member) (plain arm member)) apart i
    have listed := stays j _ (getElem?_eq_getElem j.isLt) needed
    obtain ⟨other, there, same⟩ := exists_identical_arm keptWellFormed mentioned listed
      (by rw [keptArms _ listed]; exact mem_cons_self)
    have inside := fromKept mentioned other there
    refine ⟨other, there, transitive _ member _ (whole.arms.get_mem j) _ inside above ?_⟩
    exact gradual.identical _ _ (free _ (whole.arms.get_mem j)) (free _ inside)
      (plain _ (whole.arms.get_mem j)) same

theorem Covers.refl (regular : t.Regular) : Covers below t t.arms := by
  cases known : t.isAny with
  | true => exact .inl known
  | false =>
    refine .inr fun arm member => ⟨arm, member, gradual.refl ?_ ?_⟩
    · exact arms_objectFree regular.free arm member
    · exact regular.wellFormed.arms_isArm known member

theorem Gradual.covers (left : a.Regular) (right : b.Regular)
    (isBelow : below a b) : Covers below b a.arms := by
  cases known : a.isAny with
  | false => exact (gradual.below_iff left right known).mp isBelow
  | true =>
    obtain rfl := eq_any_of_isAny known
    cases mentioned : b.isAny with
    | true => exact .inl mentioned
    | false =>
      rw [gradual.any_left b right.free mentioned] at isBelow
      cases isBelow

theorem covers_of_identical (left : a.Regular) (right : b.Regular)
    (same : a.identical b) : Covers below a b.arms := by
  cases known : a.isAny with
  | true => exact .inl known
  | false =>
    refine .inr fun arm member => ?_
    obtain ⟨found, inside, identical⟩ := exists_identical_of_identical same member
    refine ⟨found, inside, gradual.identical arm found ?_ ?_ ?_ identical⟩
    · exact arms_objectFree right.free arm member
    · exact arms_objectFree left.free found inside
    · exact right.wellFormed.arms_isArm ((isAny_of_identical same).trans known) member

theorem covers_unionOf (listed : ∀ t ∈ types, t.Regular) :
    Covers below (.unionOf types) (types.flatMap Ty.arms) := by
  cases known : (unionOf types).isAny with
  | true => exact .inl known
  | false =>
    refine .inr fun arm member => ?_
    obtain ⟨t, inList, inside⟩ := mem_flatMap.mp member
    obtain ⟨found, there, identical⟩ := exists_identical_arm
      (fun t member => (listed t member).wellFormed) known inList inside
    have noAny := any_eq_false.mp (any_isAny_of_unionOf known) t inList
    refine ⟨found, there, gradual.identical arm found ?_ ?_ ?_ identical⟩
    · exact arms_objectFree (listed t inList).free arm inside
    · exact arms_objectFree (unionOf_regular listed).free found there
    · exact (listed t inList).wellFormed.arms_isArm (Bool.eq_false_iff.mpr noAny) inside

/-- A join covers the arms of both types, and has no arms but theirs. -/
theorem Joined.covers (left : a.Regular) (right : b.Regular)
    (transitive : a.isAny = false → b.isAny = false → TransitiveOn below (a.arms ++ b.arms))
    (joined : Joined below a b both) :
    Covers below both (a.arms ++ b.arms) ∧
      (both.isAny = false → ∀ arm ∈ both.arms, arm ∈ a.arms ++ b.arms) := by
  have fromLeft : ∀ arm ∈ a.arms, arm ∈ a.arms ++ b.arms := fun arm => mem_append_left _
  have fromRight : ∀ arm ∈ b.arms, arm ∈ a.arms ++ b.arms := fun arm => mem_append_right _
  have listed : ∀ t ∈ [a, b], t.Regular :=
    forall_mem_cons.mpr ⟨left, forall_mem_singleton.mpr right⟩
  have flat : [a, b].flatMap arms = a.arms ++ b.arms := by simp
  have united : Covers below (.unionOf [a, b]) (a.arms ++ b.arms) := flat ▸ covers_unionOf gradual listed
  have inUnion (known : (unionOf [a, b]).isAny = false) :
      ∀ arm ∈ (unionOf [a, b]).arms, arm ∈ a.arms ++ b.arms := fun arm member =>
    flat ▸ mem_flatMap.mpr (mem_arms_of_mem_unionOf
      (fun t member => (listed t member).wellFormed) known member)
  cases joined with
  | any =>
    refine ⟨.inl rfl, fun known => ?_⟩
    cases known
  | same identical =>
    exact ⟨(Covers.refl gradual left).append (covers_of_identical gradual left right identical),
      fun _ => fromLeft⟩
  | right isBelow =>
    exact ⟨(gradual.covers left right isBelow).append (.refl gradual right), fun _ => fromRight⟩
  | left isBelow =>
    exact ⟨(Covers.refl gradual left).append (gradual.covers right left isBelow), fun _ => fromLeft⟩
  | whole => exact ⟨united, inUnion⟩
  | absorbed _ kept =>
    cases known : (unionOf [a, b]).isAny with
    | false =>
      have noAny := any_isAny_of_unionOf known
      simp only [any_cons, any_nil, Bool.or_false, Bool.or_eq_false_iff] at noAny
      have transitive := transitive noAny.1 noAny.2
      obtain ⟨covers, inside⟩ := kept.covers gradual (unionOf_regular listed) known
        (transitive.mono (inUnion known))
      have inside' := fun mentioned arm member => inUnion known arm (inside mentioned arm member)
      exact ⟨united.trans transitive known covers (fun _ => id) (inUnion known) inside', inside'⟩
    | true =>
      obtain ⟨arms, rfl, part, _⟩ := kept
      rw [eq_any_of_isAny known] at part
      have none : unionOf arms = .any := by
        rcases sublist_singleton.mp part with rfl | rfl <;> rfl
      rw [none]
      refine ⟨.inl rfl, fun mentioned => ?_⟩
      cases mentioned

theorem Covers.isAny (regular : t.Regular)
    (covers : Covers below t arms) (member : .any ∈ arms) : t.isAny = true := by
  cases known : t.isAny with
  | true => rfl
  | false =>
    rcases covers with mentioned | covers
    · rw [known] at mentioned
      cases mentioned
    obtain ⟨other, inside, isBelow⟩ := covers .any member
    have plain := regular.wellFormed.arms_isArm known inside
    rw [gradual.any_left other (arms_objectFree regular.free other inside) (isAny_of_isArm plain)] at isBelow
    cases isBelow

theorem Joined.covers_seen (transitive : TransitiveOn below types) (regular : joined.Regular)
    (tRegular : t.Regular) (tKnown : ∀ arm ∈ t.arms, arm ∈ types)
    (known : joined.isAny = false → ∀ arm ∈ joined.arms, arm ∈ types)
    (inSeen : ∀ arm ∈ seen, arm ∈ types) (covers : Covers below joined seen)
    (step : Joined below joined t both) :
    Covers below both (seen ++ t.arms) ∧ (both.isAny = false → ∀ arm ∈ both.arms, arm ∈ types) := by
  have inBoth (mentioned : joined.isAny = false) :
      ∀ arm ∈ joined.arms ++ t.arms, arm ∈ types := fun arm member =>
    (mem_append.mp member).elim (known mentioned arm) (tKnown arm)
  obtain ⟨above, inside⟩ := step.covers gradual regular tRegular
    fun mentioned _ => transitive.mono (inBoth mentioned)
  cases mentioned : both.isAny with
  | true =>
    refine ⟨.inl mentioned, fun known => ?_⟩
    cases known
  | false =>
    have stays : joined.isAny = false := by
      rw [Bool.eq_false_iff]
      intro whole
      obtain rfl := eq_any_of_isAny whole
      rw [above.isAny gradual (step.regular regular tRegular) mem_cons_self] at mentioned
      cases mentioned
    have inTypes := fun arm member => inBoth stays arm (inside mentioned arm member)
    simp only [Covers, mentioned, Bool.false_eq_true, false_or] at above
    have first : Covers below both joined.arms := .inr (forall_mem_append.mp above).1
    have second : Covers below both t.arms := .inr (forall_mem_append.mp above).2
    have before := covers.trans transitive stays first inSeen (known stays) fun _ => inTypes
    exact ⟨before.append second, fun _ => inTypes⟩

theorem JoinedFrom.covers {rest : List Ty} (transitive : TransitiveOn below types)
    (steps : JoinedFrom below (some joined) rest result) (regular : joined.Regular)
    (listed : ∀ t ∈ rest, t.Regular) (inRest : ∀ t ∈ rest, ∀ arm ∈ t.arms, arm ∈ types)
    (known : joined.isAny = false → ∀ arm ∈ joined.arms, arm ∈ types)
    (inSeen : ∀ arm ∈ seen, arm ∈ types) (covers : Covers below joined seen) :
    ∃ last, result = some last ∧ last.Regular ∧ Covers below last (seen ++ rest.flatMap Ty.arms) := by
  induction rest generalizing joined seen with
  | nil =>
    cases steps
    exact ⟨joined, rfl, regular, by simpa using covers⟩
  | cons t rest ih =>
    cases steps with
    | next step later =>
      have tRegular := listed t mem_cons_self
      have tKnown := inRest t mem_cons_self
      obtain ⟨covers, known⟩ :=
        step.covers_seen gradual transitive regular tRegular tKnown known inSeen covers
      have onward := ih later (step.regular regular tRegular)
        (forall_mem_cons.mp listed).2
        (forall_mem_cons.mp inRest).2 known
        (fun arm member => (mem_append.mp member).elim (inSeen arm) (tKnown arm)) covers
      rwa [append_assoc] at onward

theorem JoinedFrom.above (listed : ∀ t ∈ types, t.Regular)
    (transitive : TransitiveOn below (types.flatMap Ty.arms))
    (steps : JoinedFrom below none types result) :
    (result.getD .any).Regular ∧ ∀ t ∈ types, below t (result.getD .any) = true := by
  cases steps with
  | done =>
    refine ⟨⟨rfl, trivial⟩, fun t member => ?_⟩
    cases member
  | first later =>
    rename_i first rest
    have regular := listed first mem_cons_self
    have known : ∀ t ∈ first :: rest, ∀ arm ∈ t.arms, arm ∈ (first :: rest).flatMap arms :=
      fun t member arm inside => mem_flatMap.mpr ⟨t, member, inside⟩
    obtain ⟨last, rfl, lastRegular, covers⟩ := later.covers gradual transitive regular
      (forall_mem_cons.mp listed).2
      (forall_mem_cons.mp known).2
      (fun _ => known first mem_cons_self) (known first mem_cons_self)
      (.refl gradual regular)
    refine ⟨lastRegular, fun t member => ?_⟩
    have tCovered : Covers below last t.arms := by
      rcases covers with mentioned | covers
      · exact .inl mentioned
      · exact .inr fun arm inside => covers arm (known t member arm inside)
    cases mentioned : t.isAny with
    | false => exact (gradual.below_iff (listed t member) lastRegular mentioned).mpr tCovered
    | true =>
      obtain rfl := eq_any_of_isAny mentioned
      have whole := tCovered.isAny gradual lastRegular mem_cons_self
      rw [Option.getD_some, eq_any_of_isAny whole]
      exact gradual.any_right _ rfl

end Joining

end Lattice

namespace World

open Registry Stubwise.Lattice

variable {registry : Registry} {a b : Ty}

theorem answer_of_run (ran : (world.isSubtype a b).run registry = .ok (holds, registry)) :
    answer registry world.isSubtype a b = holds := by
  rw [answer, ran]

section

variable {α : Type} {ask : α → Run Bool} {holds : α → Bool} {values : List α}
  (each : ∀ a ∈ values, Gives registry (· = holds a) (ask a))
include each

theorem allOf_gives : Gives registry (· = values.all holds) (allOf ask values) := by
  induction values with
  | nil => exact gives_pure rfl
  | cons a _ ih =>
    obtain ⟨first, others⟩ := forall_mem_cons.mp each
    refine first.bind fun below same => ?_
    rw [same, all_cons]
    cases holds a with
    | true => exact ih others
    | false => exact gives_pure rfl

theorem anyOf_gives : Gives registry (· = values.any holds) (anyOf ask values) := by
  induction values with
  | nil => exact gives_pure rfl
  | cons a _ ih =>
    obtain ⟨first, others⟩ := forall_mem_cons.mp each
    refine first.bind fun below same => ?_
    rw [same, any_cons]
    cases holds a with
    | true => exact gives_pure rfl
    | false => exact ih others

end

theorem answer_eq_of_gives (given : Gives registry (· = holds)
    (world.isSubtype a b)) : answer registry world.isSubtype a b = holds := by
  obtain ⟨value, rfl, ran⟩ := given
  exact answer_of_run ran

theorem isSubtype_gradual (plain : registry.nominal) : Gradual (answer registry world.isSubtype) where
  any_right a free := by
    refine answer_of_run ?_
    rw [isSubtype, subtype]
    rfl
  any_left b free known := by
    refine answer_of_run ?_
    rw [isSubtype, subtype_any_left _ _ known]
    rfl
  union_left arms b left right known := by
    refine answer_eq_of_gives ?_
    rw [isSubtype, subtype_union_left _ _ _ known]
    exact allOf_gives fun arm inside =>
      isSubtype_settled plain arm b (allObjectFree_iff.mp left arm inside) right
  union_right a arms left right isArm := by
    refine answer_eq_of_gives ?_
    rw [isSubtype, subtype_union_right _ _ _ isArm]
    exact anyOf_gives fun arm inside =>
      isSubtype_settled plain a arm left (allObjectFree_iff.mp right arm inside)
  identical a b left right isArm same := by
    refine answer_of_run ?_
    cases a with
    | any | union _ => cases isArm
    | _ =>
      cases b with
      | union => cases same
      | _ => first
        | cases same
        | (unfold subtype
           rw [if_pos same]
           rfl)

theorem isSubtype_of_answer (plain : registry.nominal) (left : a.objectFree) (right : b.objectFree)
    (holds : answer registry world.isSubtype a b) :
    (world.isSubtype a b).run registry = .ok (true, registry) := by
  obtain ⟨value, rfl, ran⟩ := isSubtype_settled plain a b left right
  rwa [holds] at ran

/-- Without protocols a join is above what it joins, if subtyping is transitive on the arms of the
types. On two types that are no unions it always is. -/
theorem types_below_join (plain : registry.nominal) {types : List Ty} (listed : ∀ t ∈ types, t.Regular)
    (transitive : TransitiveOn (answer registry world.isSubtype)
      (types.flatMap arms)) (left : a.Regular) (right : b.Regular)
    (arms : a.isArm = true ∧ b.isArm = true ∨
      TransitiveOn (answer registry world.isSubtype) (a.arms ++ b.arms)) :
    (∃ joined, (world.joinAll types).run registry = .ok (joined, registry) ∧
      ∀ t ∈ types, (world.isSubtype t joined).run registry = .ok (true, registry)) ∧
    ∃ joined, (world.join a b).run registry = .ok (joined, registry) ∧
      (world.isSubtype a joined).run registry = .ok (true, registry) ∧
      (world.isSubtype b joined).run registry = .ok (true, registry) := by
  have settled := isSubtype_settled plain
  have gradual := isSubtype_gradual plain
  constructor
  · obtain ⟨_, ⟨result, steps, rfl⟩, ran⟩ :=
      joinAllWith_gives settled fun t member => (listed t member).free
    obtain ⟨regular, above⟩ := steps.above gradual listed transitive
    exact ⟨_, ran, fun t member =>
      isSubtype_of_answer plain (listed t member).free regular.free (above t member)⟩
  · have transitive : TransitiveOn (answer registry world.isSubtype) ([a, b].flatMap Ty.arms) := by
      rcases arms with ⟨leftArm, rightArm⟩ | transitive
      · simpa [arms_of_isArm leftArm, arms_of_isArm rightArm] using
          transitiveOn_pair ⟨gradual.refl left.free leftArm, gradual.refl right.free rightArm⟩
      · simpa using transitive
    obtain ⟨joined, step, ran⟩ := joinWith_gives settled left.free right.free
    have both : ∀ t ∈ [a, b], t.Regular := by simp [left, right]
    obtain ⟨regular, above⟩ :=
      (JoinedFrom.first (.next step (.done (some joined)))).above gradual both transitive
    exact ⟨joined, ran, isSubtype_of_answer plain left.free regular.free (above a (by simp)),
      isSubtype_of_answer plain right.free regular.free (above b (by simp))⟩

theorem types_below_join_of_classes :
    let box : Ty := .app (inModule "Box") [.strType]
    let iter : Ty := .app (inModule "Iter") [.strType]
    let whole : Ty := .union [box, iter]
    whole.Regular ∧
    (∃ joined, (world.joinAll [box, iter]).run boxes = .ok (joined, boxes) ∧
      ∀ t ∈ [box, iter], (world.isSubtype t joined).run boxes = .ok (true, boxes)) ∧
    ∃ joined, (world.join whole iter).run boxes = .ok (joined, boxes) ∧
      (world.isSubtype whole joined).run boxes = .ok (true, boxes) ∧
      (world.isSubtype iter joined).run boxes = .ok (true, boxes) := by
  intro box iter whole
  have regular : ∀ name, (app (inModule name) [.strType]).Regular := fun _ => ⟨rfl, trivial, trivial⟩
  have wholeRegular : whole.Regular :=
    ⟨rfl, by decide, ⟨trivial, trivial⟩, ⟨trivial, trivial⟩, trivial⟩
  have gradual := @isSubtype_gradual boxes rfl
  have transitive : TransitiveOn (answer boxes world.isSubtype) [box, iter] :=
    transitiveOn_pair ⟨gradual.refl rfl rfl, gradual.refl rfl rfl⟩
  have listed : ∀ t ∈ [box, iter], t.Regular :=
    forall_mem_cons.mpr ⟨regular "Box", forall_mem_singleton.mpr (regular "Iter")⟩
  exact ⟨wholeRegular, types_below_join rfl listed transitive wholeRegular (regular "Iter")
    (.inr (transitive.mono (by simp [whole, box, iter, arms])))⟩

section Dictionaries

variable {key value key' value' : Ty}

theorem subtype_same_class {ref : ClassRef} {args others : List Ty} {conforms : Conforms Run}
    (differ : (app ref args).identical (.app ref others) = false) :
    world.subtype conforms (.app ref args) (.app ref others) =
      allOf (world.argBelow conforms) (args.zip others) := by
  rw [subtype_of_arms _ _ rfl rfl, armBelow] <;>
    simp [differ, upcast, nominal?, upcastClass, upcastWithin, ref.same_refl]

theorem dict_below (differ : (dictOf key value).identical (.dictOf key' value') = false)
    (keys : (key.isAny || key'.isAny || key.equal key') = true) :
    world.isSubtype (.dictOf key value) (.dictOf key' value') =
      allOf (world.argBelow world.conforms) [(value, value')] := by
  have opened := @subtype_same_class _ _ _ world.conforms differ
  have fits : world.argBelow world.conforms (key, key') = pure true := if_pos keys
  rw [isSubtype, dictOf, dictOf, builtinOf, builtinOf, opened, zip_cons_cons, allOf, fits, pure_bind]
  rfl

theorem dict_fits (differ : (dictOf key value).identical (.dictOf key' value') = false := by decide)
    (keys : (key.isAny || key'.isAny || key.equal key') = true := by decide)
    (values : (value.isAny || value'.isAny || value.equal value') = true := by decide) :
    (world.isSubtype (.dictOf key value) (.dictOf key' value')).run registry = .ok (true, registry) := by
  have fits : world.argBelow world.conforms (value, value') = pure true := if_pos values
  rw [dict_below differ keys, allOf, fits]
  rfl

end Dictionaries

theorem join_of_mutual (left : a.objectFree) (right : b.objectFree)
    (known : (a.isAny || b.isAny) = false) (differ : a.identical b = false)
    (low : (world.isSubtype a b).run registry = .ok (true, registry))
    (high : (world.isSubtype b a).run registry = .ok (true, registry)) (order : ¬a.text < b.text) :
    (joinWith world.isSubtype a b).run registry = .ok (b, registry) := by
  rw [joinWith_eq left right, if_neg (by simp [known]), if_neg (by simp [differ]), joinPlain,
    run_bind_of_ok low, run_bind_of_ok high]
  rw [if_neg order]
  rfl

/-- `Any` breaks transitivity: `dict[int, int]` fits `dict[int, Any]`, this fits `dict[Any, str]`,
and only the last one is left of their join. -/
theorem joinAll_drops_type :
    let first : Ty := .dictOf (.builtin "int") (.builtin "int")
    let second : Ty := .dictOf (.builtin "int") .any
    let third : Ty := .dictOf .any .strType
    (∀ t ∈ [first, second, third], t.Regular) ∧
    (world.joinAll [first, second, third]).run {} = .ok (third, {}) ∧
    (world.isSubtype first third).run {} = .ok (false, {}) := by
  intro first second third
  refine ⟨?_, ?_, ?_⟩
  · simp only [mem_cons, not_mem_nil, or_false, forall_eq_or_imp, forall_eq]
    exact ⟨⟨rfl, trivial, trivial, trivial⟩, ⟨rfl, trivial, trivial, trivial⟩,
      ⟨rfl, trivial, trivial, trivial⟩⟩
  · have dropped : (joinWith world.isSubtype first second).run {} = .ok (second, {}) :=
      join_of_mutual rfl rfl rfl (by decide) dict_fits dict_fits (by decide)
    have replaced : (joinWith world.isSubtype second third).run {} = .ok (third, {}) :=
      join_of_mutual rfl rfl rfl (by decide) dict_fits dict_fits (by decide)
    simp only [joinAll, joinAllWith, joinFrom, joinOption, pure_bind, bind_assoc]
    rw [run_bind_of_ok dropped, run_bind_of_ok replaced]
    rfl
  · have apart : (world.subtype world.conforms (.builtin "int") .strType).run {} =
        .ok (false, {}) := by
      rw [builtin, strType, builtin, subtype]
      · rfl
      all_goals simp
    have asked : world.argBelow world.conforms (.builtin "int", .strType) = _ := if_neg (by decide)
    rw [dict_below (by decide) (by decide), allOf, asked, run_bind_of_ok apart]
    rfl

end World

end Stubwise
