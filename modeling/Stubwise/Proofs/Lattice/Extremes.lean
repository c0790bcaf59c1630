import Stubwise.Proofs.Lattice.Bases
import Stubwise.Proofs.Lattice.Literals

/-!
The greatest and the least types. `Any` is above all types and below none but itself, `object` is
above all others of which it is known what they are, and every type is below itself.
-/

namespace Stubwise

open List

/-- Types that count as a class, or stand for such types. -/
inductive Ty.Grounded : Ty → Prop
  | counted {t : Ty} (kind : ∀ values, t ≠ .literal values) (counted : t.nominal?.isSome) : Grounded t
  | literal {values : List LiteralValue} (some : values ≠ []) : Grounded (.literal values)
  | free {name : String} : Grounded (.var name none)
  | bound {name : String} {bound : Ty} (below : Grounded bound) : Grounded (.var name (some bound))
  | union {arms : List Ty} (each : ∀ arm ∈ arms, Grounded arm) : Grounded (.union arms)

namespace World

open Registry Ty Stubwise.Lattice

variable {registry : Registry} {t : Ty} {arms : List Ty}

theorem counted_below_object (kind : ∀ values, t ≠ .literal values) (counted : t.nominal?.isSome) :
    Gives registry (· = true) (world.isSubtype t (.cls .object)) := by
  have isArm : t.isArm = true := by cases t <;> first | rfl | cases counted
  have last : world.armBelow world.conforms t (.cls .object) =
      (do return (← world.upcast world.conforms t .object).isSome) := by
    cases t <;> first | rfl | cases counted | exact absurd rfl (kind _)
  obtain ⟨⟨ref, args⟩, counted⟩ := Option.isSome_iff_exists.mp counted
  rw [isSubtype, subtype_of_arms _ _ isArm rfl, last]
  split
  · exact gives_pure rfl
  · rw [upcast, counted]
    cases same : ref.same .object <;> simp [upcastClass, upcastWithin, same] <;> exact gives_pure rfl

theorem allOf_true {α : Type} {holds : α → Run Bool} {values : List α}
    (each : ∀ a ∈ values, Gives registry (· = true) (holds a)) :
    Gives registry (· = true) (allOf holds values) := by
  induction values with
  | nil => exact gives_pure rfl
  | cons a _ ih =>
    refine (each a mem_cons_self).bind fun below same => ?_
    rw [if_pos same]
    exact ih (forall_mem_cons.mp each).2

theorem grounded_below_object (plain : registry.nominal) (grounded : t.Grounded) :
    Gives registry (· = true) (world.isSubtype t (.cls .object)) := by
  induction grounded with
  | counted kind counted => exact counted_below_object kind counted
  | @literal values some =>
    rw [isSubtype, subtype_of_arms _ _ rfl rfl, if_neg (by rintro ⟨⟩)]
    refine (literalType_classes plain some).bind fun t classes => allOf_true fun arm inside => ?_
    obtain ⟨value, _, rfl⟩ := classes.2 arm inside
    exact @counted_below_object _ (.cls value.ref) (by rintro _ ⟨⟩) rfl
  | free =>
    rw [isSubtype, subtype_of_arms _ _ rfl rfl, if_neg (by rintro ⟨⟩)]
    exact gives_pure (by decide)
  | bound _ ih =>
    rw [isSubtype, subtype_of_arms _ _ rfl rfl, if_neg (by rintro ⟨⟩)]
    exact ih
  | union _ ih =>
    rw [isSubtype, subtype_union_left _ _ _ rfl]
    exact allOf_true ih

theorem below_own_arms (listed : t ∈ arms) (plain : t.isArm) :
    Returns (· = true) (anyOf (world.subtype world.conforms t) arms) := by
  induction arms with
  | nil => cases listed
  | cons _ _ ih =>
    rw [anyOf]
    rcases mem_cons.mp listed with rfl | later
    · rw [subtype_of_arms _ _ plain plain, if_pos t.identical_refl]
      exact leads_pure rfl
    · refine (returns_true _).bind fun below _ => ?_
      split
      · exact leads_pure rfl
      · exact ih later

theorem arms_below_own_union {whole : List Ty} (part : ∀ arm ∈ arms, arm ∈ whole ∧ arm.isArm = true) :
    Returns (· = true) (allOf (world.subtype world.conforms · (.union whole)) arms) := by
  induction arms with
  | nil => exact leads_pure rfl
  | cons _ _ ih =>
    obtain ⟨⟨listed, isArm⟩, part⟩ := forall_mem_cons.mp part
    rw [allOf, subtype_union_right _ _ _ isArm]
    refine (below_own_arms listed isArm).bind fun below same => ?_
    rw [if_pos same]
    exact ih part

/-- Without protocols `Any` is above every type and below itself only, and `object` is above each
type that counts as a class or stands for such types, whether its classes are known or not. No type
is ever found not to be below itself, and it is found to be so if it is no union or mentions no
instance. -/
theorem subtype_has_extremes (plain : registry.nominal) (formed : t.WellFormed) :
    (world.isSubtype t .any).run registry = .ok (true, registry) ∧
    (world.isSubtype .any t).run registry = .ok (t.isAny, registry) ∧
    (∀ holds after, (world.isSubtype t t).run registry = .ok (holds, after) → holds = true) ∧
    (t.isArm = true ∨ t.objectFree = true →
      (world.isSubtype t t).run registry = .ok (true, registry)) ∧
    (t.Grounded → (world.isSubtype t (.cls .object)).run registry = .ok (true, registry)) := by
  have above (a : Ty) : world.isSubtype a .any = pure true := by rw [isSubtype, subtype]
  have arm (isArm : t.isArm) : world.isSubtype t t = pure true := by
    rw [isSubtype, subtype_of_arms _ _ isArm isArm, if_pos t.identical_refl]
  have self : Returns (· = true) (world.isSubtype t t) := by
    cases kind : t.isArm with
    | true => exact arm kind ▸ leads_pure rfl
    | false =>
      cases t with
      | any => exact above _ ▸ leads_pure rfl
      | union =>
        rw [isSubtype, subtype_union_left _ _ _ rfl]
        exact arms_below_own_union fun arm listed => ⟨listed, formed.1.plain arm listed⟩
      | _ => cases kind
  refine ⟨by rw [above]; rfl, ?_, fun holds after ran => (self _ _ _ trivial ran).2, ?_,
    fun grounded => ?_⟩
  · cases known : t.isAny with
    | true =>
      rw [eq_any_of_isAny known, above]
      rfl
    | false =>
      rw [isSubtype, subtype_any_left _ _ known]
      rfl
  · rintro (isArm | free)
    · rw [arm isArm]
      rfl
    · obtain ⟨holds, _, ran⟩ := subtype_gives plain t t free free
      have same := (self _ _ _ trivial ran).2
      rw [isSubtype, ran, same]
  · obtain ⟨_, rfl, ran⟩ := grounded_below_object plain grounded
    exact ran

/-- A literal or a bounded variable. -/
theorem subtype_has_extremes_of_union :
    let t : Ty := .union [.literal [⟨.builtin "str", "'a'"⟩],
      .var "T" (some (.app (inModule "Box") [.strType]))]
    t.WellFormed ∧ (world.isSubtype t t).run boxes = .ok (true, boxes) ∧
      (world.isSubtype t (.cls .object)).run boxes = .ok (true, boxes) := by
  intro t
  have formed : t.WellFormed :=
    ⟨by decide, trivial, ⟨trivial, trivial⟩, trivial⟩
  obtain ⟨_, _, _, self, top⟩ := @subtype_has_extremes boxes t rfl formed
  refine ⟨formed, self (.inr rfl), top (.union (forall_mem_cons.mpr ⟨?_, forall_mem_singleton.mpr ?_⟩))⟩
  · exact .literal (cons_ne_nil _ _)
  · exact .bound (.counted (by rintro _ ⟨⟩) rfl)

end World

namespace Registry

/-- An instance that was assigned to an attribute of itself. -/
def selfish : Registry :=
  { boxes with instances := { attributes := #[[("x", .object 0 (.cls (inModule "A")))]] } }

/-- Asking whether `Box` of the instance is an `A` never ends, so the union of both is not found to
be below itself. -/
theorem union_not_found_below_itself :
    let first : Ty := .cls (inModule "A")
    let second : Ty := .app (inModule "Box") [.object 0 first]
    selfish.nominal = true ∧ (Ty.union [first, second]).WellFormed ∧
      (world.isSubtype (.union [first, second]) (.union [first, second])).run selfish =
        .error .endless := by
  intro first second
  refine ⟨by decide, ⟨by decide, trivial, ⟨trivial, trivial⟩, trivial⟩, ?_⟩
  have self : (world.subtype world.conforms first (.union [first, second])).run selfish =
      .ok (true, selfish) := by
    rw [World.subtype_union_right _ _ _ rfl, Lattice.anyOf, World.subtype_of_arms _ _ rfl rfl,
      if_pos (Ty.identical_refl _)]
    rfl
  have stuck : (world.upcast world.conforms second (inModule "A")).run selfish = .error .endless := by
    rfl
  have asked : (world.subtype world.conforms second (.union [first, second])).run selfish =
      .error .endless := by
    rw [World.subtype_union_right _ _ _ rfl, Lattice.anyOf, World.subtype_of_arms _ _ rfl rfl,
      if_neg (by decide)]
    exact run_bind_of_error (run_bind_of_error stuck)
  rw [World.isSubtype, World.subtype_union_left _ _ _ rfl, Lattice.allOf, run_bind_of_ok self, if_pos rfl,
    Lattice.allOf]
  exact run_bind_of_error asked

end Registry

end Stubwise
