import Stubwise.Proofs.Lattice.Interchange
import Stubwise.Proofs.Lattice.Literals

namespace Stubwise

open List

namespace Lattice

theorem branch_pure {m : Type → Type} [Monad m] [LawfulMonad m] (run : m Bool) :
    (do if ← run then return true else return false) = run := by
  have same : (fun holds : Bool => (if holds then pure true else pure false : m Bool)) = pure := by
    funext holds
    cases holds <;> rfl
  rw [same, bind_pure]

end Lattice

namespace World

open Registry Ty Stubwise.Lattice

variable {values : List LiteralValue} {a b t : Ty}

section Classes

variable {m : Type → Type} [Monad m] (world : World m) (conforms : Conforms m)

theorem subtype_cls (ref target : ClassRef) :
    world.subtype conforms (.cls ref) (.cls target) = world.subclass conforms ref target := by
  rw [subtype_of_arms _ _ rfl rfl]
  rfl

variable [LawfulMonad m]

theorem partsBelow_eq (classes : ofClasses values t) (known : b.isAny = false) :
    allOf (world.partBelow conforms b) t.arms = world.subtype conforms t b := by
  have all {arms : List Ty} (each : ∀ arm ∈ arms, ∃ value ∈ values, arm = .cls value.ref) :
      allOf (world.partBelow conforms b) arms = allOf (world.subtype conforms · b) arms := by
    induction arms with
    | nil => rfl
    | cons _ _ ih =>
      obtain ⟨⟨value, _, rfl⟩, others⟩ := forall_mem_cons.mp each
      rw [allOf, allOf, partBelow, ih others]
  cases t with
  | union =>
    rw [subtype_union_left _ _ _ known]
    exact all classes.2
  | cls ref =>
    exact branch_pure _
  | _ =>
    obtain ⟨_, _, same⟩ := classes.2 _ mem_cons_self
    cases same

end Classes

variable {registry : Registry}

/-- The question has the answer yes. -/
abbrev Below (registry : Registry) (a b : Ty) : Prop :=
  (world.isSubtype a b).run registry = .ok (true, registry)

section

variable (plain : registry.nominal)
include plain

theorem below_arms_iff (left : a.objectFree) (right : b.objectFree) (isArm : a.isArm) :
    Below registry a b ↔ ∃ arm ∈ b.arms, Below registry a arm := by
  refine (isSubtype_run_iff plain left right).trans
    (((isSubtype_gradual plain).arm_below_iff left right isArm).trans ?_)
  refine exists_congr fun arm => and_congr_right fun inside => ?_
  exact (isSubtype_run_iff plain left (arms_objectFree right arm inside)).symm

theorem below_some_arm (left : a.objectFree) (right : b.objectFree)
    (single : a.isArm = true ∨ b.isArm = true) (below : Below registry a b) :
    ∃ arm ∈ b.arms, Below registry a arm := by
  rcases single with isArm | isArm
  · exact (below_arms_iff plain left right isArm).mp below
  · exact ⟨b, by rw [arms_of_isArm isArm]; exact mem_cons_self, below⟩

/-- A literal type is below what its stand-in is below, and below literals with all its values. -/
theorem literal_below_arm (some : values ≠ []) {joined arm : Ty} (isArm : arm.isArm)
    (stands : (world.literalType world.conforms values).run registry = .ok (joined, registry)) :
    Below registry (.literal values) arm ↔
      (∃ others, arm = .literal others ∧ ∀ value ∈ values, value ∈ others) ∨
        Below registry joined arm := by
  obtain ⟨value, classes, ran⟩ := literalType_classes plain some
  rw [ran] at stands
  cases stands
  have byClass := partsBelow_eq world world.conforms classes (isAny_of_isArm isArm)
  have asked : (∀ others, arm ≠ .literal others) → (world.isSubtype (.literal values) arm).run registry =
        (world.isSubtype joined arm).run registry := by
    intro kind
    rw [isSubtype, isSubtype, ← byClass, subtype_of_arms _ _ rfl isArm]
    cases arm with
    | literal others => exact absurd rfl (kind others)
    | any | union _ => cases isArm
    | _ => exact run_bind_of_ok ran
  cases arm with
  | literal others =>
    have never : ¬Below registry joined (.literal others) := by
      obtain ⟨first, rest, shape⟩ := exists_cons_of_ne_nil classes.1
      obtain ⟨_, _, rfl⟩ := classes.2 first (shape ▸ mem_cons_self)
      rw [Below, isSubtype, ← byClass, shape, allOf, partBelow, subtype_of_arms _ _ rfl rfl]
      rintro ⟨⟩
    have contained : world.isSubtype (.literal values) (.literal others) =
        pure (values.all (others.contains ·)) := by
      rw [isSubtype, subtype_of_arms _ _ rfl rfl]
      split
      · rename_i same
        rw [eq_of_beq same, show others.all (others.contains ·) = true by simp]
      · rfl
    have ends : Below registry (.literal values) (.literal others) ↔ ∀ value ∈ values, value ∈ others := by
      rw [Below, contained]
      show Except.ok (_, registry) = Except.ok (true, registry) ↔ _
      simp
    simp [ends, never]
  | _ =>
    rw [Below, asked (by rintro _ ⟨⟩)]
    exact ⟨.inr, fun either => either.resolve_left (by rintro ⟨_, ⟨⟩, _⟩)⟩

end

/-- Without protocols a variable or a literal is below a type if it is identical to an arm, if an
arm has all values of the literal, or if what it stands for is below one arm as a whole. So it is
below all that this is below, if one of the two is no union. -/
theorem stand_in_below_iff (plain : registry.nominal) {target : Ty} (right : target.Regular) :
    (∀ name bound, bound.Regular →
      (Below registry (.var name (some bound)) target ↔ ∃ arm ∈ target.arms,
        (var name (some bound)).identical arm = true ∨ Below registry bound arm) ∧
      (bound.isArm = true ∨ target.isArm = true → Below registry bound target →
        Below registry (.var name (some bound)) target)) ∧
    ∀ values joined, values ≠ [] →
      (world.literalType world.conforms values).run registry = .ok (joined, registry) →
      (Below registry (.literal values) target ↔ ∃ arm ∈ target.arms,
        (∃ others, arm = .literal others ∧ ∀ value ∈ values, value ∈ others) ∨
          Below registry joined arm) ∧
      (joined.isArm = true ∨ target.isArm = true → Below registry joined target →
        Below registry (.literal values) target) := by
  have top (t : Ty) : Below registry t .any := by
    rw [Below, isSubtype, subtype]
    rfl
  have kinds : ∀ arm ∈ target.arms, arm = .any ∨ arm.isArm = true := by
    intro arm inside
    cases known : target.isAny with
    | true =>
      rw [eq_any_of_isAny known] at inside
      exact .inl (mem_singleton.mp inside)
    | false => exact .inr (right.wellFormed.arms_isArm known inside)
  constructor
  · intro name bound regular
    have whole : Below registry (.var name (some bound)) target ↔ ∃ arm ∈ target.arms,
        (var name (some bound)).identical arm = true ∨ Below registry bound arm := by
      have left : (var name (some bound)).objectFree = true := regular.free
      refine (below_arms_iff plain left right.free rfl).trans ?_
      refine exists_congr fun arm => and_congr_right fun inside => ?_
      rcases kinds arm inside with rfl | isArm
      · exact ⟨fun _ => .inr (top _), fun _ => top _⟩
      · rw [Below, isSubtype, subtype_of_arms _ _ rfl isArm]
        split
        · rename_i same
          exact ⟨fun _ => .inl same, fun _ => rfl⟩
        · rename_i differ
          exact ⟨.inr, fun either => either.resolve_left differ⟩
    refine ⟨whole, fun single below => whole.mpr ?_⟩
    obtain ⟨arm, inside, below⟩ := below_some_arm plain regular.free right.free single below
    exact ⟨arm, inside, .inr below⟩
  · intro values joined some stands
    have whole : Below registry (.literal values) target ↔ ∃ arm ∈ target.arms,
        (∃ others, arm = .literal others ∧ ∀ value ∈ values, value ∈ others) ∨
          Below registry joined arm := by
      refine (below_arms_iff plain rfl right.free rfl).trans ?_
      refine exists_congr fun arm => and_congr_right fun inside => ?_
      rcases kinds arm inside with rfl | isArm
      · exact ⟨fun _ => .inr (top _), fun _ => top _⟩
      · exact literal_below_arm plain some isArm stands
    refine ⟨whole, fun single below => whole.mpr ?_⟩
    have free : joined.objectFree = true := by
      obtain ⟨value, classes, ran⟩ := literalType_classes plain some
      rw [ran] at stands
      cases stands
      exact classes.free
    obtain ⟨arm, inside, below⟩ := below_some_arm plain free right.free single below
    exact ⟨arm, inside, .inr below⟩

theorem stand_in_below_iff_in_union :
    let box : Ty := .app (inModule "Box") [.strType]
    let iter : Ty := .app (inModule "Iter") [.strType]
    let target : Ty := .union [iter, .strType]
    target.Regular ∧ Below boxes (.var "T" (some box)) target ∧
      Below boxes (.literal [⟨.builtin "str", "'a'"⟩]) target := by
  intro box iter target
  have regular : target.Regular :=
    ⟨rfl, by decide, ⟨trivial, trivial⟩, trivial, trivial⟩
  have lower : Below boxes box iter := by
    have found : (world.upcast world.conforms box (inModule "Iter")).run boxes =
        .ok (some [.strType], boxes) := rfl
    rw [Below, isSubtype, subtype_of_arms _ _ rfl rfl]
    refine (run_bind_of_ok found).trans ?_
    rfl
  have self : Below boxes .strType .strType := by
    show (world.subtype world.conforms (.cls _) (.cls _)).run boxes = _
    rw [subtype_cls]
    rfl
  obtain ⟨bounded, literals⟩ := @stand_in_below_iff boxes rfl target regular
  exact ⟨regular, (bounded "T" box ⟨rfl, trivial, trivial⟩).1.mpr ⟨iter, mem_cons_self, .inr lower⟩,
    (literals _ .strType (cons_ne_nil _ _) rfl).1.mpr
      ⟨.strType, mem_cons_of_mem _ mem_cons_self, .inr self⟩⟩

/-- What is below a union as a whole need not be below one of its arms. -/
theorem bound_below_no_arm :
    let target : Ty := .union [.builtin "int", .strType]
    Below {} target target ∧
      (world.isSubtype (.var "T" (some target)) target).run {} = .ok (false, {}) := by
  intro target
  have regular : target.Regular :=
    ⟨rfl, by decide, trivial, trivial, trivial⟩
  have gradual := @isSubtype_gradual {} rfl
  have asked (name other : String) (holds : Bool) (known : (world.subclass world.conforms
      (.builtin name) (.builtin other)).run {} = .ok (holds, {})) :
      (world.subtype world.conforms (.builtin name) (.builtin other)).run {} = .ok (holds, {}) := by
    rw [builtin, builtin, subtype_cls]
    exact known
  have first : (world.subtype world.conforms (.var "T" (some target)) (.builtin "int")).run {} =
      .ok (false, {}) := by
    rw [subtype_of_arms _ _ rfl rfl, if_neg (by decide), armBelow, subtype_union_left _ _ _ rfl,
      allOf, run_bind_of_ok (asked "int" "int" true rfl), if_pos rfl, allOf]
    exact run_bind_of_ok (asked "str" "int" false rfl)
  have second : (world.subtype world.conforms (.var "T" (some target)) .strType).run {} =
      .ok (false, {}) := by
    rw [subtype_of_arms _ _ rfl rfl, if_neg (by decide), armBelow, subtype_union_left _ _ _ rfl, allOf]
    exact run_bind_of_ok (asked "int" "str" false rfl)
  refine ⟨isSubtype_of_answer rfl rfl rfl ((gradual.below_iff regular regular rfl).mpr
    (.refl gradual regular)), ?_⟩
  rw [isSubtype, subtype_union_right _ _ _ rfl, anyOf, run_bind_of_ok first,
    if_neg Bool.false_ne_true, anyOf, run_bind_of_ok second, if_neg Bool.false_ne_true, anyOf]
  rfl

end World

end Stubwise
