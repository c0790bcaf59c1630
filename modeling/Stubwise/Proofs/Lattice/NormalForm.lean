import Stubwise.Proofs.Lattice.Steady

/-!
Joins in normal form. Whatever the registry is and however it answers, a join of well-formed types
that comes to a result comes to a well-formed one.
-/

namespace Stubwise

open List

namespace Registry

variable {α β : Type}

/-- Every value that the run comes to from a registry that fits has the property, and the registry
fits still. -/
def Leads (fits : Registry → Prop) (post : α → Prop) (run : Run α) : Prop :=
  ∀ before value after, fits before → run.run before = .ok (value, after) → fits after ∧ post value

section

variable {fits : Registry → Prop} {post weaker : α → Prop} {run : Run α}

theorem leads_pure {value : α} (holds : post value) : Leads fits post (pure value) := by
  intro before result after start ran
  cases ran
  exact ⟨start, holds⟩

theorem Leads.bind {mid : α → Prop} {post : β → Prop} {first : Run α} {next : α → Run β}
    (before : Leads fits mid first) (after : ∀ value, mid value → Leads fits post (next value)) :
    Leads fits post (first >>= next) := by
  intro registry result last start ran
  rw [StateT.run_bind] at ran
  cases started : first.run registry with
  | error =>
    rw [started] at ran
    cases ran
  | ok value =>
    rw [started] at ran
    obtain ⟨kept, holds⟩ := before registry value.1 value.2 start started
    exact after value.1 holds value.2 result last kept ran

theorem Leads.imp (led : Leads fits post run) (implies : ∀ value, post value → weaker value) :
    Leads fits weaker run :=
  fun before value after start ran => (led before value after start ran).imp id (implies value)

end

/-- Every value that the run comes to has the property, from whatever registry it starts. -/
abbrev Returns (post : α → Prop) (run : Run α) : Prop :=
  Leads (fun _ => True) post run

/-- What is said of runs that come to a value, from whatever registry. -/
@[reducible]
def returning : Accountable Run where
  Yields := Returns
  pure := leads_pure
  bind := Leads.bind

theorem returns_true (run : Run α) : Returns (fun _ => True) run := fun _ _ _ _ _ => ⟨trivial, trivial⟩

/-- The run comes to the value from some registry. -/
def Gave (run : Run α) (value : α) : Prop :=
  ∃ before after, run.run before = .ok (value, after)

theorem returns_gave (run : Run α) : Returns (Gave run) run :=
  fun registry _ after _ ran => ⟨trivial, registry, after, ran⟩

end Registry

namespace Lattice

open Registry

variable {sub : Ty → Ty → Run Bool} {a b t : Ty}

theorem keptArms_returns (arms : List Ty) (index : Nat) (rest : List Ty) :
    Returns (·.Sublist rest) (keptArms sub arms index rest) := by
  induction rest generalizing index with
  | nil => exact leads_pure .slnil
  | cons _ _ ih =>
    refine (returns_true _).bind fun redundant _ => ?_
    split
    · exact (ih (index + 1)).imp fun _ part => part.cons _
    · exact (ih (index + 1)).bind fun kept part => leads_pure (part.cons_cons _)

theorem absorb_returns (wellFormed : t.WellFormed) : Returns Ty.WellFormed (absorb sub t) := by
  cases t with
  | union arms =>
    refine (keptArms_returns arms 0 arms).bind fun kept part => leads_pure ?_
    exact Ty.unionOf_wellFormed fun arm member =>
      Ty.allWellFormed_iff.mp wellFormed.2 arm (part.mem member)
  | _ => exact leads_pure wellFormed

theorem joinPlain_returns (left : a.WellFormed) (right : b.WellFormed) :
    Returns Ty.WellFormed (joinPlain sub a b) := by
  refine (returns_true _).bind fun below _ => ?_
  refine (returns_true _).bind fun above _ => ?_
  cases below <;> cases above
  · refine absorb_returns (Ty.unionOf_wellFormed ?_)
    simp [left, right]
  · exact leads_pure left
  · exact leads_pure right
  · dsimp only
    split
    · exact leads_pure left
    · exact leads_pure right

theorem joinRight_returns (left : a.WellFormed) (right : b.WellFormed) :
    Returns Ty.WellFormed (joinRight sub a b) := by
  fun_induction joinRight sub a b with
  | case1 | case4 => exact leads_pure trivial
  | case2 | case5 => exact leads_pure left
  | case3 _ _ _ _ ih => exact ih right
  | case6 => exact joinPlain_returns left right

theorem joinWith_returns (left : a.WellFormed) (right : b.WellFormed) :
    Returns Ty.WellFormed (joinWith sub a b) := by
  fun_induction joinWith sub a b with
  | case1 => exact leads_pure trivial
  | case2 => exact leads_pure left
  | case3 _ _ _ _ _ ih => exact ih left right
  | case4 => exact joinRight_returns left right

theorem joinFrom_returns {joined : Option Ty} {types : List Ty}
    (left : Ty.OptionWellFormed joined) (right : ∀ t ∈ types, t.WellFormed) :
    Returns Ty.OptionWellFormed (joinFrom sub joined types) := by
  induction types generalizing joined with
  | nil => exact leads_pure left
  | cons t _ ih =>
    have first := right t mem_cons_self
    have later := fun other member => right other (mem_cons_of_mem t member)
    have step : Returns Ty.OptionWellFormed (joinOption sub joined (some t)) := by
      cases joined with
      | none => exact leads_pure first
      | some => exact (joinWith_returns left first).bind fun _ both => leads_pure both
    exact step.bind fun both wellFormed => ih wellFormed later

theorem joinAllWith_returns {types : List Ty} (wellFormed : ∀ t ∈ types, t.WellFormed) :
    Returns Ty.WellFormed (joinAllWith sub types) := by
  refine (@joinFrom_returns sub none types trivial wellFormed).bind fun joined fits => ?_
  cases joined with
  | none => exact leads_pure trivial
  | some => exact leads_pure fits

end Lattice

namespace Ty

/-- A well-formed type without instances. -/
structure Regular (t : Ty) : Prop where
  free : t.objectFree = true
  wellFormed : t.WellFormed

end Ty

open Lattice in
/-- Normal unions are an invariant of all operations that make types: unions, substitution,
replacing `Self`, and joins. Joins may ask a registry that never answers; without protocols they
always come to a result. -/
theorem unions_stay_normal (registry : Registry) {types : List Ty} {subst : Subst} {a b : Ty}
    (listed : ∀ t ∈ types, t.Regular) (images : ∀ entry ∈ subst, entry.2.Regular)
    (left : a.Regular) (right : b.Regular) :
    (Ty.unionOf types).WellFormed ∧ Ty.unionOf [Ty.unionOf types] = Ty.unionOf types ∧
    (∃ result, (Registry.world.apply subst a).run registry = .ok (result, registry) ∧
      result.WellFormed) ∧
    (Ty.replaceSelf b a).WellFormed ∧
    (∀ result after, (Registry.world.join a b).run registry = .ok (result, after) →
      result.WellFormed) ∧
    (∀ result after, (Registry.world.joinAll types).run registry = .ok (result, after) →
      result.WellFormed) ∧
    (registry.nominal = true →
      (∃ result, (Registry.world.join a b).run registry = .ok (result, registry)) ∧
      ∃ result, (Registry.world.joinAll types).run registry = .ok (result, registry)) := by
  have united := Ty.unionOf_wellFormed fun t member => (listed t member).wellFormed
  have imagesFree : subst.objectFree = true :=
    all_eq_true.mpr fun entry member => (images entry member).free
  refine ⟨united, Ty.unionOf_singleton united, ?_, ?_, ?_, ?_, fun plain => ⟨?_, ?_⟩⟩
  · obtain ⟨result, rfl, ran⟩ := @World.apply_gives registry _ _ imagesFree left.free
    exact ⟨_, ran, Subst.apply_wellFormed (fun entry member => (images entry member).wellFormed)
      left.wellFormed⟩
  · exact Ty.replaceSelf_wellFormed right.wellFormed a left.wellFormed
  · exact fun result after ran =>
      (joinWith_returns left.wellFormed right.wellFormed _ _ after trivial ran).2
  · exact fun result after ran =>
      (joinAllWith_returns (fun t member => (listed t member).wellFormed) _ _ after trivial ran).2
  · obtain ⟨result, _, ran⟩ :=
      joinWith_gives (World.isSubtype_settled plain) left.free right.free
    exact ⟨result, ran⟩
  · obtain ⟨result, _, ran⟩ :=
      joinAllWith_gives (World.isSubtype_settled plain) fun t member => (listed t member).free
    exact ⟨result, ran⟩

/-- `int | str`, put for a variable and for `Self` in `Self | T | list[T]`. -/
theorem unions_stay_normal_in_open_union :
    let number : Ty := .union [.builtin "int", .strType]
    let shape : Ty := .union [.cls Ty.selfRef, .var "T" none, .listOf (.var "T" none)]
    shape.Regular ∧ number.Regular ∧
    (Ty.unionOf [shape, number]).WellFormed ∧ (Ty.replaceSelf number shape).WellFormed ∧
    (∃ result, (Registry.world.apply [("T", number)] shape).run {} = .ok (result, {}) ∧
      result.WellFormed) ∧
    ∃ result, (Registry.world.join shape number).run {} = .ok (result, {}) := by
  intro number shape
  have numberRegular : number.Regular :=
    ⟨rfl, by decide, trivial, trivial, trivial⟩
  have shapeRegular : shape.Regular :=
    ⟨rfl, by decide, trivial, trivial, ⟨trivial, trivial⟩, trivial⟩
  have listed : ∀ t ∈ [shape, number], t.Regular :=
    forall_mem_cons.mpr ⟨shapeRegular, forall_mem_singleton.mpr numberRegular⟩
  have images : ∀ entry ∈ [("T", number)], entry.2.Regular :=
    forall_mem_singleton.mpr numberRegular
  obtain ⟨united, _, applied, replaced, _, _, total⟩ :=
    unions_stay_normal {} listed images shapeRegular numberRegular
  exact ⟨shapeRegular, numberRegular, united, replaced, applied, (total rfl).1⟩

end Stubwise
