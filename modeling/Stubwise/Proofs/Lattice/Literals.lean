import Stubwise.Proofs.Lattice.Coverage

namespace Stubwise

open List

variable {other ref : ClassRef} {value : LiteralValue} {a t : Ty}

namespace World

open Registry Ty Stubwise.Lattice

variable {registry : Registry} {values : List LiteralValue} {types : List Ty}

theorem anyOf_gives_true {holds : Ty → Run Bool} {values : List Ty}
    (each : ∀ t ∈ values, Gives registry (fun _ => True) (holds t)) (inside : t ∈ values)
    (found : Gives registry (· = true) (holds t)) :
    Gives registry (· = true) (anyOf holds values) := by
  induction values with
  | nil => cases inside
  | cons _ _ ih =>
    obtain ⟨here, others⟩ := forall_mem_cons.mp each
    rcases mem_cons.mp inside with rfl | later
    · refine found.bind fun holds same => ?_
      rw [if_pos same]
      exact gives_pure rfl
    · refine here.bind fun holds _ => ?_
      split
      · exact gives_pure rfl
      · exact ih others later

theorem answer_of_arm (plain : registry.nominal) {b : Ty} (inside : .cls other ∈ b.arms)
    (below : answer registry (world.subtypeOfClasses world.conforms) (.cls ref) (.cls other)) :
    answer registry (world.subtypeOfClasses world.conforms) (.cls ref) b = true := by
  obtain ⟨holds, _, ran⟩ := subclass_gives plain ref other
  have single : (world.subtypeOfClasses world.conforms (.cls ref) (.cls other)).run registry =
      .ok (holds, registry) := by
    show (do if ← (do if ← world.subclass world.conforms ref other then pure true else pure false)
      then pure true else pure false : Run Bool).run registry = _
    rw [bind_assoc, run_bind_of_ok ran]
    cases holds <;> rfl
  rw [answer, single] at below
  have whole : Gives registry (· = true) (world.subtypeOfClasses world.conforms (.cls ref) b) := by
    refine (anyOf_gives_true (fun arm _ => ?_) inside ⟨holds, below, ran⟩).bind fun found same => ?_
    · split
      · exact subclass_gives plain _ _
      · exact gives_pure trivial
    · rw [if_pos same]
      exact gives_pure rfl
  obtain ⟨_, rfl, ran⟩ := whole
  rw [answer, ran]

/-- One or several classes of values. -/
def ofClasses (values : List LiteralValue) (t : Ty) : Prop :=
  t.arms ≠ [] ∧ ∀ arm ∈ t.arms, ∃ value ∈ values, arm = .cls value.ref

theorem answer_of_same (same : ref.same other) :
    answer registry (world.subtypeOfClasses world.conforms) (.cls ref) (.cls other) = true := by
  have ran : (world.subtypeOfClasses world.conforms (.cls ref) (.cls other)).run registry =
      .ok (true, registry) := by
    simp [subtypeOfClasses, allOf, anyOf, arms, subclass, same]
    rfl
  rw [answer, ran]

theorem ofClasses_cls (listed : value ∈ values) :
    ofClasses values (.cls value.ref) :=
  ⟨cons_ne_nil _ _, fun _ inside => ⟨value, listed, mem_singleton.mp inside⟩⟩

theorem ofClasses_unionOf (some : types.flatMap arms ≠ [])
    (each : ∀ arm ∈ types.flatMap arms, ∃ value ∈ values, arm = .cls value.ref) :
    (unionOf types).arms = sortByText (distinct (types.flatMap arms)) ∧ ofClasses values (unionOf types) := by
  have arms : (unionOf types).arms = sortByText (distinct (types.flatMap arms)) := by
    refine arms_unionOf_eq some fun arm inside => ?_
    obtain ⟨value, _, rfl⟩ := each arm inside
    rfl
  refine ⟨arms, ?_, fun arm inside => ?_⟩
  · obtain ⟨arm, inside⟩ := exists_mem_of_ne_nil _ some
    obtain ⟨_, kept, _⟩ := exists_identical_distinct inside
    rw [arms]
    exact ne_nil_of_mem (sortByText_perm.mem_iff.mpr kept)
  · rw [arms] at inside
    exact each arm (mem_of_mem_distinct (sortByText_perm.mem_iff.mp inside))

theorem ofClasses.known (classes : ofClasses values t) : t.isAny = false := by
  cases t with
  | any =>
    obtain ⟨_, _, same⟩ := classes.2 .any mem_cons_self
    cases same
  | _ => rfl

theorem ofClasses.free (classes : ofClasses values t) : t.objectFree = true := by
  have each : ∀ arm ∈ t.arms, arm.objectFree = true := by
    intro arm inside
    obtain ⟨_, _, rfl⟩ := classes.2 arm inside
    rfl
  cases t with
  | union => exact allObjectFree_iff.mpr each
  | _ => exact each _ mem_cons_self

theorem ofClasses_pair (listed : value ∈ values) (left : ofClasses values a) :
    (unionOf [a, .cls value.ref]).arms = sortByText (distinct (a.arms ++ [.cls value.ref])) ∧
      ofClasses values (unionOf [a, .cls value.ref]) := by
  have flat : [a, .cls value.ref].flatMap arms = a.arms ++ [.cls value.ref] := by simp [arms]
  refine ofClasses_unionOf (by simp [flat]) fun arm inside => ?_
  rw [flat, mem_append] at inside
  exact inside.elim (left.2 arm) ((ofClasses_cls listed).2 arm)

/-- A class that is joined to classes lies below none of them where the join is a new union, so it
stays in it. -/
theorem joined_ofClasses (plain : registry.nominal) {u : Ty}
    (listed : value ∈ values) (left : ofClasses values a)
    (joined : Joined (answer registry (world.subtypeOfClasses world.conforms)) a (.cls value.ref) u) :
    ofClasses values u := by
  obtain ⟨arms, union⟩ := ofClasses_pair listed left
  cases joined with
  | any known =>
    rcases known with known | known
    · cases left.known.symm.trans known
    · cases known
  | same | left => exact left
  | right => exact ofClasses_cls listed
  | whole => exact union
  | absorbed apart kept =>
    obtain ⟨kept, rfl, part, stays⟩ := kept
    have keptClasses : ∀ arm ∈ kept, ∃ value ∈ values, arm = .cls value.ref :=
      fun arm inside => union.2 arm (part.mem inside)
    have keptFlat : kept.flatMap Ty.arms = kept := by
      rw [flatMap_congr fun t listed => arms_of_isArm _, flatMap_singleton']
      intro t listed
      obtain ⟨_, _, rfl⟩ := keptClasses t listed
      rfl
    refine (ofClasses_unionOf ?_ (by rwa [keptFlat])).2
    rw [keptFlat]
    have inside {t : Ty} (listed : t ∈ (unionOf [a, .cls value.ref]).arms) :
        t ∈ a.arms ∨ t = .cls value.ref := by
      rw [arms] at listed
      simpa using mem_of_mem_distinct (sortByText_perm.mem_iff.mp listed)
    have alone {t : Ty} (listed : t ∈ a.arms) :
        answer registry (world.subtypeOfClasses world.conforms) (.cls value.ref) t = false := by
      obtain ⟨other, _, rfl⟩ := left.2 t listed
      refine Bool.eq_false_iff.mpr fun below => ?_
      rw [answer_of_arm plain listed below] at apart
      cases apart.2
    obtain ⟨t, distinct, same⟩ := exists_identical_distinct
      (mem_append_right a.arms (mem_singleton_self (cls value.ref)))
    have there : t ∈ (unionOf [a, .cls value.ref]).arms := by
      rw [arms]
      exact sortByText_perm.mem_iff.mpr distinct
    rcases inside there with listed | rfl
    · have fails := alone listed
      obtain ⟨other, _, rfl⟩ := left.2 t listed
      rw [answer_of_same same] at fails
      cases fails
    · obtain ⟨place, known⟩ := mem_iff_getElem?.mp there
      refine ne_nil_of_mem (stays place _ known ?_)
      rintro ⟨_, other, found, outdone⟩
      rcases inside (mem_of_getElem? found) with listed | rfl
      · cases (alone listed).symm.trans outdone.isBelow
      · cases (identical_refl _).symm.trans outdone.differ

theorem joinedFrom_ofClasses (plain : registry.nominal) {joined result : Option Ty}
    (steps : JoinedFrom (answer registry (world.subtypeOfClasses world.conforms)) joined types result)
    (each : ∀ t ∈ types, ∃ value ∈ values, t = .cls value.ref)
    (left : ∀ t ∈ joined, ofClasses values t) (several : joined ≠ none ∨ types ≠ []) :
    ∃ t, result = some t ∧ ofClasses values t := by
  induction steps with
  | done joined =>
    cases joined with
    | none => exact absurd rfl (several.resolve_right fun none => none rfl)
    | some t => exact ⟨t, rfl, left t rfl⟩
  | first _ ih =>
    obtain ⟨⟨value, listed, rfl⟩, others⟩ := forall_mem_cons.mp each
    refine ih others (fun t same => ?_) (.inl (Option.some_ne_none _))
    cases same
    exact ofClasses_cls listed
  | next step _ ih =>
    obtain ⟨⟨value, listed, rfl⟩, others⟩ := forall_mem_cons.mp each
    refine ih others (fun t same => ?_) (.inl (Option.some_ne_none _))
    cases same
    exact joined_ofClasses plain listed (left _ rfl) step

theorem literalClasses_of (some : values ≠ []) : literalClasses values ≠ [] ∧
    ∀ ref ∈ literalClasses values, ∃ value ∈ values, ref = value.ref := by
  cases values with
  | nil => exact absurd rfl some
  | cons first rest =>
    refine foldlRecOn rest _ (motive := fun refs => refs ≠ [] ∧
      ∀ ref ∈ refs, ∃ value ∈ first :: rest, ref = value.ref) ⟨by simp, by simp⟩
        fun refs known value listed => ?_
    split
    · exact known
    · refine ⟨by simp, fun ref inside => ?_⟩
      rcases mem_append.mp inside with early | late
      · exact known.2 ref early
      · exact ⟨value, mem_cons_of_mem _ listed, mem_singleton.mp late⟩

theorem literalType_classes (plain : registry.nominal) (some : values ≠ []) :
    Gives registry (ofClasses values) (world.literalType world.conforms values) := by
  obtain ⟨several, classes⟩ := literalClasses_of some
  have each : ∀ t ∈ (literalClasses values).map cls, ∃ value ∈ values, t = .cls value.ref := by
    refine forall_mem_map.mpr fun ref inside => ?_
    obtain ⟨value, known, rfl⟩ := classes ref inside
    exact ⟨value, known, rfl⟩
  refine (joinAllWith_gives (settled_of_gives fun a b _ _ => subtypeOfClasses_gives plain a b)
    fun t listed => ?_).imp fun t joined => ?_
  · obtain ⟨_, _, rfl⟩ := each t listed
    rfl
  · obtain ⟨joined, steps, rfl⟩ := joined
    obtain ⟨u, rfl, known⟩ := joinedFrom_ofClasses plain steps each (fun _ none => nomatch none)
      (.inr (by simpa using several))
    exact known

end World

end Stubwise
