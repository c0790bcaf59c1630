import Stubwise.Proofs.Lattice.Permutation

/-!
Types in the place of others. On the right of a question of subtyping a type may be replaced by any
that is identical to it.
-/

namespace Stubwise

open List

namespace Ty

/-- What identity looks at, constructor by constructor. -/
inductive SameForm : Ty → Ty → Prop
  | any : SameForm any any
  | var {name x y} : SameForm (var name x) (var name y)
  | cls {r q} (same : r.same q) : SameForm (cls r) (cls q)
  | app {r q as bs} (same : r.same q) (args : allIdentical as bs) :
      SameForm (app r as) (app q bs)
  | tuple {as bs} (elements : allIdentical as bs) : SameForm (tuple as) (tuple bs)
  | union {as bs} (arms : allIdentical as bs) : SameForm (union as) (union bs)
  | literal (values) : SameForm (literal values) (literal values)
  | func {f g} : SameForm (func f) (func g)
  | method {a b x y m n f g} : SameForm (method a x m f) (method b y n g)
  | type {a b} (inner : a.identical b) : SameForm (type a) (type b)
  | module (name) : SameForm (module name) (module name)
  | object {i j x y} : SameForm (object i x) (object j y)

theorem sameForm_of_identical {a b : Ty} (same : a.identical b) : SameForm a b := by
  cases a <;> cases b <;> try cases same
  · exact .any
  · obtain rfl := eq_of_beq same
    exact .var
  · exact .cls same
  · exact .app (Bool.and_eq_true_iff.mp same).1 (Bool.and_eq_true_iff.mp same).2
  · exact .tuple same
  · exact .union same
  · obtain rfl := eq_of_beq same
    exact .literal _
  · exact .func
  · exact .method
  · exact .type same
  · obtain rfl := eq_of_beq same
    exact .module _
  · exact .object

theorem isArm_of_ne {t : Ty} (known : t = any → False) (single : ∀ arms, t = union arms → False) :
    t.isArm = true := by
  cases t with
  | any => exact (known rfl).elim
  | union => exact (single _ rfl).elim
  | _ => rfl

/-- Identical types without instances. -/
structure Exchanged (a b : Ty) : Prop where
  same : a.identical b = true
  left : a.objectFree = true
  right : b.objectFree = true

theorem Exchanged.form {c d : Ty} (right : Exchanged c d) : SameForm c d :=
  sameForm_of_identical right.same

theorem Exchanged.known {c d : Ty} (right : Exchanged c d) (known : c = any → False) : d.isAny = false :=
  (isAny_of_identical right.same).trans
    (Bool.eq_false_iff.mpr fun mentioned => known (Lattice.eq_any_of_isAny mentioned))

theorem exchanged_all {as bs : List Ty} (same : allIdentical as bs)
    (left : allObjectFree as) (right : allObjectFree bs) :
    List.Forall₂ Exchanged as bs :=
  forall₂_iff_zip.mpr ⟨(allIdentical_iff.mp same).length_eq, fun inside =>
    ⟨(forall₂_iff_zip.mp (allIdentical_iff.mp same)).2 inside,
      allObjectFree_iff.mp left _ (of_mem_zip inside).1,
      allObjectFree_iff.mp right _ (of_mem_zip inside).2⟩⟩

theorem exchanged_zip (elements : List Ty) {others others' : List Ty}
    (each : List.Forall₂ Exchanged others others') :
    List.Forall₂ (fun pair pair' => pair.1 = pair'.1 ∧ pair ∈ elements.zip others ∧
      Exchanged pair.2 pair'.2) (elements.zip others) (elements.zip others') := by
  induction each generalizing elements with
  | nil => simp
  | cons first _ ih =>
    cases elements with
    | nil => exact .nil
    | cons element elements =>
      exact .cons ⟨rfl, mem_cons_self, first⟩ ((ih elements).imp fun _ _ both =>
        ⟨both.1, mem_cons_of_mem _ both.2.1, both.2.2⟩)

mutual

/-- The variables, classes, functions and methods that identity compares by name. -/
def atoms : Ty → List Ty
  | any | literal _ | module _ => []
  | app ref args => cls ref :: atomsAll args
  | tuple elements => atomsAll elements
  | union arms => atomsAll arms
  | type inner => inner.atoms
  | t => [t]

def atomsAll : List Ty → List Ty
  | [] => []
  | t :: rest => t.atoms ++ atomsAll rest

end

/-- No two different things of the same name are in the types. -/
def Unambiguous (left right : List Ty) : Prop :=
  ∀ a ∈ left, ∀ b ∈ right, a.identical b = true → a = b

mutual

theorem eq_of_identical (a b : Ty) (same : a.identical b) (named : Unambiguous a.atoms b.atoms) : a = b := by
  cases sameForm_of_identical same with
  | any | literal | module => rfl
  | var | func | method | object =>
    exact named _ mem_cons_self _ mem_cons_self same
  | cls _ => exact named _ mem_cons_self _ mem_cons_self same
  | @app r q as bs equal args =>
    have head : cls r = cls q := named _ mem_cons_self _ mem_cons_self equal
    cases head
    rw [eq_of_allIdentical as bs args fun x inside y there =>
      named x (mem_cons_of_mem _ inside) y (mem_cons_of_mem _ there)]
  | @tuple as bs args | @union as bs args => rw [eq_of_allIdentical as bs args named]
  | @type a b inner => rw [eq_of_identical a b inner named]

theorem eq_of_allIdentical (as bs : List Ty) (same : allIdentical as bs)
    (named : Unambiguous (atomsAll as) (atomsAll bs)) : as = bs := by
  cases as with
  | nil =>
    cases bs with
    | nil => rfl
    | cons => cases same
  | cons a as =>
    cases bs with
    | nil => cases same
    | cons b bs =>
      obtain ⟨first, rest⟩ := Bool.and_eq_true_iff.mp same
      rw [eq_of_identical a b first fun x inside y there =>
          named x (mem_append_left _ inside) y (mem_append_left _ there),
        eq_of_allIdentical as bs rest fun x inside y there =>
          named x (mem_append_right _ inside) y (mem_append_right _ there)]

end

end Ty

namespace World

open Registry Ty Stubwise.Lattice

variable {registry : Registry} {a b c d : Ty}

section

variable {α β : Type} {ask : α → Run Bool} {ask' : β → Run Bool} {values : List α} {others : List β}
  (each : List.Forall₂ (fun a b => Together registry Eq (ask a) (ask' b)) values others)
include each

theorem allOf_together : Together registry Eq (allOf ask values) (allOf ask' others) := by
  induction each with
  | nil => exact together_pure rfl
  | cons first _ ih => exact first.branch ih (together_pure rfl)

theorem anyOf_together : Together registry Eq (anyOf ask values) (anyOf ask' others) := by
  induction each with
  | nil => exact together_pure rfl
  | cons first _ ih => exact first.branch (together_pure rfl) ih

end

theorem upcastWithin_congr {m : Type → Type} [Monad m] (world : World m) {target target' : ClassRef}
    (same : target.same target') (depth : Nat) :
    world.upcastWithin target depth = world.upcastWithin target' depth := by
  have named (ref : ClassRef) : ref.same target = ref.same target' := by
    rw [ref.same_comm, target.same_congr same, ref.same_comm]
  induction depth with
  | zero =>
    funext ref args visited
    rw [upcastWithin, upcastWithin, named, target.same_congr same]
  | succ depth ih =>
    funext ref args visited
    rw [upcastWithin, upcastWithin, named, target.same_congr same, ih]

theorem upcast_together (plain : registry.nominal) {target target' : ClassRef}
    (same : target.same target') (free : a.objectFree) :
    Together registry (fun x y => x = y ∧ ∀ args ∈ x, allObjectFree args = true)
      (world.upcast world.conforms a target) (world.upcast world.conforms a target') := by
  rw [upcast, upcast]
  split
  · exact together_pure ⟨rfl, by rintro _ ⟨⟩⟩
  · rename_i ref args counted
    have given := upcastClass_gives (fun found => (nominal_of_lookup plain found).2) ref target
      (nominal?_objectFree free counted)
    rw [upcastClass, upcastClass, ← upcastWithin_congr world same]
    refine given.twice.bind fun {found _} both => ?_
    obtain ⟨rfl, free⟩ := both
    cases found with
    | some => exact together_pure ⟨rfl, free⟩
    | none =>
      refine (conforms_gives plain a target).together (conforms_gives plain a target') ?_
      rintro _ _ rfl rfl
      exact ⟨rfl, by rintro _ ⟨⟩⟩

section Subtypes

variable (plain : registry.nominal)
include plain

omit plain in
theorem subtype_exchanged (left : a.isArm) (isArm : c.isArm) (right : Exchanged c d) :
    world.subtype world.conforms a d =
      if a.identical c then return true else world.armBelow world.conforms a d := by
  have isArm' : d.isArm = true := by
    cases right.form with
    | any | union _ => cases isArm
    | _ => rfl
  rw [subtype_of_arms _ _ left isArm', a.identical_comm, ← identical_congr right.same, identical_comm]

/-- On the right, identical types may be exchanged for each other. -/
theorem subtype_together (free : a.objectFree) (right : Exchanged c d) :
    Together registry Eq (world.subtype world.conforms a c) (world.subtype world.conforms a d) := by
  fun_induction world.subtype world.conforms a c generalizing d with
  | case1 a =>
    cases right.form
    rw [subtype]
    exact together_pure rfl
  | case2 c known =>
    rw [subtype_any_left _ _ (right.known known)]
    exact together_pure rfl
  | case3 arms c known ih =>
    rw [subtype_union_left _ _ _ (right.known known), ← allOf_attach (world.subtype world.conforms · d)]
    exact allOf_together (forall₂_same.mpr fun arm _ => ih arm (allObjectFree_iff.mp free _ arm.2) right)
  | case4 a arms known single ih =>
    cases right.form with
    | union same =>
      have each := exchanged_all same right.left right.right
      rw [subtype_union_right _ _ _ (isArm_of_ne known single), anyOf_attach (world.subtype world.conforms a)]
      exact anyOf_together (forall₂_iff_zip.mpr ⟨each.length_eq, fun inside =>
        ih ⟨_, (of_mem_zip inside).1⟩ free ((forall₂_iff_zip.mp each).2 inside)⟩)
  | case5 a c known known' single single' same =>
    rw [subtype_exchanged (isArm_of_ne known' single) (isArm_of_ne known single') right, if_pos same]
    exact together_pure rfl
  | case6 _ c bound known single _ _ differ ih =>
    rw [subtype_exchanged rfl (isArm_of_ne known single) right, if_neg differ]
    exact ih free right
  | case7 _ c known single _ _ differ =>
    rw [subtype_exchanged rfl (isArm_of_ne known single) right, if_neg differ]
    refine together_pure ?_
    cases right.form with
    | cls same => exact ClassRef.same_congr same _
    | _ => rfl
  | case8 _ _ _ _ _ _ differ =>
    cases right.form
    rw [subtype_exchanged rfl rfl right, if_neg differ]
    exact together_pure rfl
  | case9 values c other _ _ known single differ ih =>
    rw [subtype_exchanged rfl (isArm_of_ne known single) right, if_neg differ]
    have below (t : Ty) : Together registry Eq (allOf (world.partBelow world.conforms c) t.arms)
        (allOf (world.partBelow world.conforms d) t.arms) := by
      refine allOf_together (forall₂_same.mpr fun part _ => ?_)
      cases part with
      | cls ref => exact ih ref rfl right
      | _ => exact together_pure rfl
    cases right.form with
    | literal => exact absurd rfl (other _)
    | _ =>
      refine (literalType_gives plain values).twice.bind fun {t _} both => ?_
      obtain ⟨rfl, _⟩ := both
      exact below t
  | case10 elements others uneven _ _ _ _ differ =>
    cases right.form with
    | tuple same =>
      rw [subtype_exchanged rfl rfl right, if_neg differ, armBelow,
        ← (exchanged_all same right.left right.right).length_eq, if_pos uneven]
      exact together_pure rfl
  | case11 elements others even _ _ _ _ differ ih =>
    cases right.form with
    | tuple same =>
      have each := exchanged_all same right.left right.right
      rw [subtype_exchanged rfl rfl right, if_neg differ, armBelow, ← each.length_eq, if_neg even,
        allOf_attach fun pair : Ty × Ty => world.subtype world.conforms pair.1 pair.2]
      refine allOf_together ((exchanged_zip elements each).imp fun pair pair' both => ?_)
      obtain ⟨same, inside, exchanged⟩ := both
      rw [← same]
      exact ih ⟨pair, inside⟩ (allObjectFree_iff.mp free _ (of_mem_zip inside).1) exchanged
  | case12 inner other _ _ _ _ differ ih =>
    cases right.form with
    | type same =>
      rw [subtype_exchanged rfl rfl right, if_neg differ]
      exact ih free ⟨same, right.left, right.right⟩
  | case13 a target var literal known single _ _ differ =>
    cases right.form with
    | cls same =>
      rw [subtype_exchanged (isArm_of_ne known single) rfl right, if_neg differ, armBelow]
      · refine (upcast_together plain same free).bind fun found => together_pure ?_
        rw [found.1]
      · exact var
      · exact literal
  | case14 a target others var literal known single _ _ differ ih =>
    cases right.form with
    | app same others' =>
      rw [subtype_exchanged (isArm_of_ne known single) rfl right, if_neg differ, armBelow]
      · refine (upcast_together plain same free).bind fun {found _} both => ?_
        obtain ⟨rfl, argsFree⟩ := both
        cases found with
        | none => exact together_pure rfl
        | some args =>
          have each := exchanged_all others' right.left right.right
          show Together registry Eq (allOf (world.argBelow world.conforms ·.1) (args.zip others).attach) _
          rw [allOf_attach]
          refine allOf_together ((exchanged_zip args each).imp fun pair pair' both => ?_)
          obtain ⟨same, inside, exchanged⟩ := both
          have first := allObjectFree_iff.mp (argsFree args rfl) _ (of_mem_zip inside).1
          have fits : (pair.1.isAny || pair.2.isAny || pair.1.equal pair.2) =
              (pair'.1.isAny || pair'.2.isAny || pair'.1.equal pair'.2) := by
            rw [← same, ← isAny_of_identical exchanged.same, equal_eq_identical first exchanged.left,
              equal_eq_identical first exchanged.right, identical_comm, identical_congr exchanged.same,
              identical_comm]
          rw [argBelow, argBelow, fits]
          split
          · exact together_pure rfl
          · rw [← same]
            exact ih args ⟨pair, inside⟩ first exchanged
      · exact var
      · exact literal
  | case15 a c known known' single single' differ var literal cls app _ tuples types =>
    rw [subtype_exchanged (isArm_of_ne known' single) (isArm_of_ne known single') right, if_neg differ]
    have form := right.form
    unfold armBelow
    split
    · exact (var _ _ rfl).elim
    · exact (literal _ rfl).elim
    · exact (literal _ rfl).elim
    · cases form
      exact (tuples _ _ rfl rfl).elim
    · cases form
      exact (types _ _ rfl rfl).elim
    · cases form
      exact (cls _ rfl).elim
    · cases form
      exact (app _ _ rfl).elim
    · exact together_pure rfl

theorem answer_congr_right (free : a.objectFree) (exchanged : Exchanged c d) :
    answer registry world.isSubtype a c = answer registry world.isSubtype a d := by
  obtain ⟨_, ⟨_, rfl, right⟩, left⟩ := subtype_together plain free exchanged
  rw [answer_of_run left, answer_of_run right]

theorem below_unionOf_iff {types : List Ty} (listed : ∀ t ∈ types, t.Regular)
    (known : (unionOf types).isAny = false) (regular : c.Regular) :
    answer registry world.isSubtype c (unionOf types) = true ↔
      ∀ arm ∈ c.arms, ∃ t ∈ types, answer registry world.isSubtype arm t = true := by
  have gradual := isSubtype_gradual plain
  have whole := unionOf_regular listed
  have wellFormed : ∀ t ∈ types, t.WellFormed := fun t member => (listed t member).wellFormed
  cases mentioned : c.isAny with
  | true =>
    obtain rfl := eq_any_of_isAny mentioned
    have noAny := any_eq_false.mp (any_isAny_of_unionOf known)
    rw [gradual.any_left _ whole.free known]
    refine ⟨fun holds => (by cases holds), fun each => ?_⟩
    obtain ⟨t, member, holds⟩ := each .any (mem_singleton.mpr rfl)
    rw [gradual.any_left t (listed t member).free (Bool.eq_false_iff.mpr (noAny t member))] at holds
    cases holds
  | false =>
    rw [gradual.below_iff regular whole mentioned, Covers, known]
    simp only [Bool.false_eq_true, false_or]
    refine forall₂_congr fun arm inside => ?_
    have free := arms_objectFree regular.free arm inside
    have plainArm := regular.wellFormed.arms_isArm mentioned inside
    constructor
    · rintro ⟨other, there, holds⟩
      obtain ⟨t, member, below⟩ := mem_arms_of_mem_unionOf wellFormed known there
      exact ⟨t, member,
        (gradual.arm_below_iff free (listed t member).free plainArm).mpr ⟨other, below, holds⟩⟩
    · rintro ⟨t, member, holds⟩
      obtain ⟨x, below, holds⟩ := (gradual.arm_below_iff free (listed t member).free plainArm).mp holds
      obtain ⟨other, there, same⟩ := exists_identical_arm wellFormed known member below
      refine ⟨other, there, answer_congr_right plain free ⟨same, ?_, ?_⟩ ▸ holds⟩
      · exact arms_objectFree (listed t member).free x below
      · exact arms_objectFree whole.free other there

end Subtypes

theorem isSubtype_run_iff (plain : registry.nominal) (left : a.objectFree) (right : b.objectFree) :
    (world.isSubtype a b).run registry = .ok (true, registry) ↔
      answer registry world.isSubtype a b = true :=
  ⟨answer_of_run, isSubtype_of_answer plain left right⟩

/-- Without protocols an identical type takes the place of another one on the right of a subtype
question, and a union accepts what some of its types accepts, however many of them are identical.
Types with nothing different of the same name in them are equal if they are identical, so that they
stand for each other on the left and under every substitution too. -/
theorem identical_types_interchange (plain : registry.nominal) (left : a.Regular)
    (right : b.Regular) (other : c.Regular) (same : a.identical b) :
    (∃ holds, (world.isSubtype c a).run registry = .ok (holds, registry) ∧
      (world.isSubtype c b).run registry = .ok (holds, registry)) ∧
    (∀ types : List Ty, (∀ t ∈ types, t.Regular) → (unionOf types).isAny = false →
      ((world.isSubtype c (unionOf types)).run registry = .ok (true, registry) ↔
        ∀ arm ∈ c.arms, ∃ t ∈ types,
          (world.isSubtype arm t).run registry = .ok (true, registry))) ∧
    (Unambiguous a.atoms b.atoms →
      (∃ holds, (world.isSubtype a c).run registry = .ok (holds, registry) ∧
        (world.isSubtype b c).run registry = .ok (holds, registry)) ∧
      ∀ subst : Subst, subst.objectFree = true → ∃ result,
        (world.apply subst a).run registry = .ok (result, registry) ∧
        (world.apply subst b).run registry = .ok (result, registry)) := by
  refine ⟨?_, fun types listed known => ?_, fun named => ?_⟩
  · obtain ⟨holds, ⟨_, rfl, second⟩, first⟩ := subtype_together plain other.free
      ⟨same, left.free, right.free⟩
    exact ⟨holds, first, second⟩
  · rw [isSubtype_run_iff plain other.free (unionOf_regular listed).free,
      below_unionOf_iff plain listed known other]
    refine forall₂_congr fun arm inside => exists_congr fun t => and_congr_right fun member => ?_
    rw [isSubtype_run_iff plain (arms_objectFree other.free arm inside) (listed t member).free]
  · obtain rfl := eq_of_identical a b same named
    obtain ⟨holds, _, ran⟩ := subtype_gives plain a c left.free other.free
    refine ⟨⟨holds, ran, ran⟩, fun subst images => ?_⟩
    obtain ⟨result, _, ran⟩ := @apply_gives registry _ _ images left.free
    exact ⟨result, ran, ran⟩

/-- `def f(x: t) -> int`. -/
def unary (t : Ty) : Ty :=
  .func ⟨"f", [⟨[⟨"x", some t, .positional, false⟩], some (.builtin "int"), none⟩], []⟩

theorem unary_regular {t : Ty} (regular : t.Regular) : (unary t).Regular := by
  refine ⟨?_, ⟨regular.wellFormed, trivial⟩, trivial, trivial⟩
  simp [unary, objectFree, overloadsObjectFree, paramsObjectFree, optionObjectFree, regular.free, builtin]

/-- `tuple[T, def f(x: A) -> int]`, with the bound `int` of `T` and `A` of one module or another. -/
theorem identical_types_interchange_in_tuple :
    let bounded : Ty := .var "T" (some (.builtin "int"))
    let first : Ty := .tuple [bounded, unary (classIn "m" "A")]
    let second : Ty := .tuple [bounded, unary (classIn "n" "A")]
    let other : Ty := .tuple [.builtin "int", .builtin "function"]
    first.Regular ∧ second.Regular ∧ other.Regular ∧ first.identical second = true ∧
    (∃ holds, (world.isSubtype other first).run {} = .ok (holds, {}) ∧
      (world.isSubtype other second).run {} = .ok (holds, {})) ∧
    Unambiguous first.atoms first.atoms ∧
    ∃ result, (world.apply [("T", .strType)] first).run {} = .ok (result, {}) := by
  intro bounded first second other
  have regular (module : String) : Ty.Regular (.tuple [bounded, unary (classIn module "A")]) := by
    have inner : (classIn module "A").Regular := ⟨rfl, trivial⟩
    exact ⟨rfl, trivial, (unary_regular inner).wellFormed, trivial⟩
  have third : other.Regular := ⟨rfl, trivial, trivial, trivial⟩
  have same : first.identical second = true := by decide
  have named : Unambiguous first.atoms first.atoms := by
    intro x inside y there equal
    simp only [first, atoms, atomsAll, bounded, unary, cons_append, nil_append,
      mem_cons, not_mem_nil, or_false] at inside there
    rcases inside with rfl | rfl <;> rcases there with rfl | rfl <;> first | rfl | cases equal
  obtain ⟨above, _⟩ :=
    @identical_types_interchange {} first second other rfl (regular "m") (regular "n") third same
  obtain ⟨_, _, agreeing⟩ := @identical_types_interchange {} first first other rfl (regular "m")
    (regular "m") third first.identical_refl
  obtain ⟨result, ran, _⟩ := (agreeing named).2 [("T", .strType)] rfl
  exact ⟨regular "m", regular "n", third, same, above, named, result, ran⟩

/-- Identity overlooks the bound of a variable, which subtyping goes by, and the types in a
function, into which a substitution goes. -/
theorem identical_types_told_apart :
    let first : Ty := .var "T" (some (.builtin "int"))
    let second : Ty := .var "T" (some .strType)
    let generic : Ty := unary (.var "T" none)
    let plain : Ty := unary (classIn "m" "T")
    (first.Regular ∧ second.Regular ∧ generic.Regular ∧ plain.Regular) ∧
    first.identical second = true ∧
    (world.isSubtype first (.builtin "int")).run {} = .ok (true, {}) ∧
    (world.isSubtype second (.builtin "int")).run {} = .ok (false, {}) ∧
    generic.identical plain = true ∧
    (Subst.apply [("T", .strType)] generic).identical (Subst.apply [("T", .strType)] plain) =
      false := by
  refine ⟨⟨⟨rfl, trivial⟩, ⟨rfl, trivial⟩, unary_regular ⟨rfl, trivial⟩, unary_regular ⟨rfl, trivial⟩⟩,
    by decide, ?_, ?_, by decide, by decide⟩
  · rw [isSubtype, subtype_of_arms _ _ rfl rfl, if_neg (by decide)]
    show (world.subtype world.conforms (.builtin "int") (.builtin "int")).run {} = _
    rw [subtype_of_arms _ _ rfl rfl, if_pos (by decide)]
    rfl
  · rw [isSubtype, subtype_of_arms _ _ rfl rfl, if_neg (by decide)]
    show (world.subtype world.conforms .strType (.builtin "int")).run {} = _
    rw [subtype_of_arms _ _ rfl rfl, if_neg (by decide)]
    rfl

end World

end Stubwise
