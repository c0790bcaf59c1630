import Mathlib
import Stubwise.Proofs.Lattice.NormalForm

/-!
The first binding of a parameter stays. Whatever the registry answers and however a match ends,
everything that was bound before is bound as it was.
-/

namespace Stubwise

open List

namespace Subst

/-- All that is bound stays as it is. -/
def Keeps (before after : Subst) : Prop :=
  ∀ name t, before.get? name = some t → after.get? name = some t

theorem Keeps.set {before after : Subst} {name : String} (keeps : before.Keeps after)
    (free : after.get? name = none) (t : Ty) : before.Keeps (Table.set after name t) := by
  intro other image known
  have kept := keeps other image known
  rw [Table.get?_set]
  split
  · rename_i same
    rw [← eq_of_beq same, free] at kept
    cases kept
  · exact kept

end Subst

namespace World

open Registry

variable {bindings : Subst} {formal concrete : Ty} {arms : List Ty} {depth : Nat}

theorem binds_keeps (before : Subst) :
    @Binds _ _ returning world world.conforms (fun _ => True)
      (fun _ => True) before.Keeps :=
  letI := returning
  { any := trivial
    cls := fun _ => trivial
    bound := fun _ => trivial
    args := fun _ _ _ => trivial
    elements := fun _ _ _ => trivial
    arms := fun _ _ _ => trivial
    inner := fun _ => trivial
    upcast := fun _ _ => (returns_true _).imp fun _ _ _ _ _ _ => trivial
    literals := fun _ => returns_true _
    join := fun _ _ => returns_true _
    conflict := fun _ _ _ => trivial
    tooDeep := fun _ _ => trivial
    fits := fun _ _ _ => trivial
    set := fun keeps free _ => keeps.set free _ }

section Arms

variable {step : Subst → Ty → Ty → Run Matched}

theorem matchSome_returns (first : Option Fault) (formals : List Ty) :
    Returns (fun result => result.2 = bindings ∨
        result.1 = none ∧ ∃ formal ∈ formals, Gave (step bindings formal concrete) (none, result.2))
      (matchSome step bindings concrete first formals) := by
  induction formals generalizing first with
  | nil => exact leads_pure (.inl rfl)
  | cons formal _ ih =>
    refine (returns_gave _).bind fun result gave => ?_
    obtain ⟨_ | fault, bound⟩ := result
    · exact leads_pure (.inr ⟨rfl, formal, mem_cons_self, gave⟩)
    · refine (ih _).imp fun result outcome => outcome.imp_right fun found => ?_
      obtain ⟨done, formal, listed, gave⟩ := found
      exact ⟨done, formal, mem_cons_of_mem _ listed, gave⟩

theorem matchArms_returns (joined : Subst) (arms : List Ty) :
    Returns (fun result => ∀ joined, result = .ok joined →
        ∀ arm ∈ arms, ∃ bound, Gave (step bindings formal arm) (none, bound))
      (world.matchArms world.conforms step bindings formal joined arms) := by
  induction arms generalizing joined with
  | nil => exact leads_pure fun _ _ _ member => absurd member not_mem_nil
  | cons _ _ ih =>
    refine (returns_gave _).bind fun result gave => ?_
    obtain ⟨_ | fault, bound⟩ := result
    · refine (returns_true _).bind fun joined _ => (ih joined).imp fun result others joined done => ?_
      exact forall_mem_cons.mpr ⟨⟨bound, gave⟩, others joined done⟩
    · refine leads_pure fun joined failed => ?_
      cases failed

end Arms

theorem matchWithin_union (known : concrete ≠ .any) (several : ∀ arm, arms.filter (·.hasFreeVars) ≠ [arm]) :
    Returns (fun result => result.2 = bindings ∨ result.1 = none ∧ ∃ arm ∈ arms,
        Gave (world.matchWithin world.conforms depth bindings arm concrete) (none, result.2))
      (world.matchWithin world.conforms (depth + 1) bindings (.union arms) concrete) := by
  generalize same : world.matchWithin world.conforms depth = step
  unfold matchWithin
  simp only [same]
  split
  · exact leads_pure (.inl rfl)
  refine (returns_true _).bind fun below _ => ?_
  split
  · exact leads_pure (.inl rfl)
  refine (matchSome_returns _ _).imp fun result outcome => outcome.imp_right fun found => ?_
  obtain ⟨done, arm, listed, gave⟩ := found
  exact ⟨done, arm, (mem_filter.mp listed).1, gave⟩

theorem matchWithin_ofUnion (notVar : ∀ name bound, formal ≠ .var name bound)
    (notUnion : ∀ arms, formal ≠ .union arms) :
    Returns (fun result => result.2 = bindings ∨ ∀ arm ∈ arms, ∃ bound,
        Gave (world.matchWithin world.conforms depth bindings formal arm) (none, bound))
      (world.matchWithin world.conforms (depth + 1) bindings formal (.union arms)) := by
  generalize same : world.matchWithin world.conforms depth = step
  unfold matchWithin
  simp only [same]
  split
  · exact leads_pure (.inl rfl)
  refine (matchArms_returns _ _).bind fun result done => ?_
  split
  · exact leads_pure (.inl rfl)
  · exact (returns_true _).imp fun _ _ => .inr (done _ rfl)

theorem unify_keeps (bindings : Subst) (formal concrete : Option Ty) :
    Returns (fun result => bindings.Keeps result.2) (world.unify bindings formal concrete) := by
  cases formal with
  | none => exact leads_pure fun _ _ known => known
  | some =>
    exact Leads.imp (@matchWithin_upholds _ _ returning _ _ _ _ _ _ (binds_keeps bindings) _ _ _
      (fun _ _ known => known) trivial trivial) fun _ => And.right

/-- The first binding of a parameter stays for good: unifying, binding and resolving leave all that
was bound as it was, whether they fail or not. Of the arms of a union on the formal side, matched
apart, one that succeeds is what is seen afterwards, or none. Of a union on the other side nothing
is seen unless all its arms succeed. -/
theorem first_binding_stays (bindings : Subst) :
    (∀ formal concrete, Returns (fun result => bindings.Keeps result.2)
      (world.unify bindings formal concrete)) ∧
    (∀ name t, Returns (fun result => bindings.Keeps result.2)
      (world.bind bindings name t)) ∧
    (∀ t, Returns (fun result => bindings.Keeps result.2)
      (world.resolveLenient bindings t)) ∧
    (∀ depth arms concrete, concrete ≠ .any → (∀ arm, arms.filter (·.hasFreeVars) ≠ [arm]) →
      Returns (fun result => result.2 = bindings ∨ result.1 = none ∧ ∃ arm ∈ arms,
          Gave (world.matchWithin world.conforms depth bindings arm concrete)
            (none, result.2))
        (world.matchWithin world.conforms (depth + 1) bindings (.union arms)
          concrete)) ∧
    ∀ depth formal arms, (∀ name bound, formal ≠ .var name bound) →
      (∀ arms, formal ≠ .union arms) →
      Returns (fun result => result.2 = bindings ∨ ∀ arm ∈ arms, ∃ bound,
          Gave (world.matchWithin world.conforms depth bindings formal arm)
            (none, bound))
        (world.matchWithin world.conforms (depth + 1) bindings formal
          (.union arms)) := by
  have binds := binds_keeps bindings
  have same : bindings.Keeps bindings := fun _ _ known => known
  refine ⟨unify_keeps bindings, fun name t => ?_, fun t => ?_,
    fun _ _ _ => matchWithin_union, fun _ _ _ => matchWithin_ofUnion⟩
  · exact Leads.imp (@bindParam_upholds _ _ returning _ _ _ _ _ _ binds name t trivial same)
      fun _ => And.right
  · refine (returns_true _).bind fun applied _ => leads_pure ?_
    exact @bindRest_invariant _ _ returning _ _ _ _ _ _ binds t.freeVars same

/-- With `T` bound to `int`, the match of `tuple[U, T] | V` against `tuple[str, str]` binds `U` in
the first arm before it fails there. Only the second arm is seen. -/
theorem first_binding_stays_in_union :
    let pair : Ty := .tuple [.strType, .strType]
    let bindings : Subst := [("T", .builtin "int")]
    let after : Subst := [("T", .builtin "int"), ("V", pair)]
    (world.unify bindings
      (some (.union [.tuple [.var "U" none, .var "T" none], .var "V" none])) (some pair)).run {} =
        .ok ((none, after), {}) ∧ bindings.Keeps after := by
  intro pair bindings after
  have ran : (world.unify bindings
      (some (.union [.tuple [.var "U" none, .var "T" none], .var "V" none])) (some pair)).run {} =
        .ok ((none, after), {}) := by
    cbv
  exact ⟨ran, ((first_binding_stays bindings).1 _ _ _ _ _ trivial ran).2⟩

end World

end Stubwise
