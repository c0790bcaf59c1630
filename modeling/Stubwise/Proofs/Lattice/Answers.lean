import Stubwise.Lattice
import Stubwise.Proofs.Orderly.Work
import Stubwise.Proofs.Ty.Normal

namespace Stubwise

open List Table Ty Lattice
open Accountable (Yields)

variable {arms formals : List Ty} {joined : Subst} {concrete : Ty}

section Ends

variable {m : Type → Type} [Monad m] [Accountable m] {α : Type}

/-- Work of whose result nothing is said. -/
abbrev Ends (run : m α) : Prop :=
  Yields (fun _ => True) run

theorem ends_pure (a : α) : Ends (pure a : m α) := Accountable.pure trivial

theorem Ends.branch {question : m Bool} {yes no : m α} (asked : Ends question) (left : Ends yes)
    (right : Ends no) : Ends (do if ← question then yes else no) := by
  refine Accountable.bind asked fun answer _ => ?_
  split
  · exact left
  · exact right

theorem allOf_ends {holds : α → m Bool} {values : List α} (each : ∀ a ∈ values, Ends (holds a)) :
    Ends (allOf holds values) := by
  induction values with
  | nil => exact ends_pure _
  | cons a _ ih =>
    exact (each a mem_cons_self).branch (ih (forall_mem_cons.mp each).2) (ends_pure _)

theorem anyOf_ends {holds : α → m Bool} {values : List α} (each : ∀ a ∈ values, Ends (holds a)) :
    Ends (anyOf holds values) := by
  induction values with
  | nil => exact ends_pure _
  | cons a _ ih =>
    exact (each a mem_cons_self).branch (ends_pure _) (ih (forall_mem_cons.mp each).2)

end Ends

section Attached

variable {m : Type → Type} [Monad m] {α : Type} (holds : α → m Bool) (values : List α)

theorem allOf_attach : allOf (fun value => holds value.1) values.attach = allOf holds values := by
  have mapped {β : Type} (f : β → α) (list : List β) :
      allOf (fun value => holds (f value)) list = allOf holds (list.map f) := by
    induction list with
    | nil => rfl
    | cons _ _ ih => rw [map_cons, allOf, allOf, ih]
  rw [mapped, attach_map_subtype_val]

theorem anyOf_attach : anyOf (fun value => holds value.1) values.attach = anyOf holds values := by
  have mapped {β : Type} (f : β → α) (list : List β) :
      anyOf (fun value => holds (f value)) list = anyOf holds (list.map f) := by
    induction list with
    | nil => rfl
    | cons _ _ ih => rw [map_cons, anyOf, anyOf, ih]
  rw [mapped, attach_map_subtype_val]

end Attached

namespace World

section Equations

variable {m : Type → Type} [Monad m] (world : World m) (conforms : Conforms m) {a b : Ty}

theorem subtype_any_left (known : b.isAny = false) : world.subtype conforms .any b = pure false := by
  rw [subtype]
  rintro rfl
  cases known

theorem subtype_union_left (arms : List Ty) (known : b.isAny = false) :
    world.subtype conforms (.union arms) b = allOf (world.subtype conforms · b) arms := by
  rw [subtype, allOf_attach (world.subtype conforms · b)]
  rintro rfl
  cases known

theorem subtype_union_right (arms : List Ty) (plain : a.isArm) :
    world.subtype conforms a (.union arms) = anyOf (world.subtype conforms a) arms := by
  cases a with
  | any | union _ => cases plain
  | _ => rw [subtype, anyOf_attach] <;> simp

/-- Whether a class, as an arm of a literal's type, is below a type. -/
def partBelow (b : Ty) : Ty → m Bool
  | .cls ref => world.subtype conforms (.cls ref) b
  | _ => return false

/-- Whether an argument fits another one. -/
def argBelow (pair : Ty × Ty) : m Bool := do
  if pair.1.isAny || pair.2.isAny || pair.1.equal pair.2 then return true
  else world.subtype conforms pair.1 pair.2

/-- What is asked of two types that are neither `Any` nor unions, and not identical. -/
def armBelow (a b : Ty) : m Bool :=
  match a, b with
  | .var _ bound, b =>
    match bound with
    | some bound => world.subtype conforms bound b
    | none => return b.isObject
  | .literal values, .literal others => return values.all (others.contains ·)
  | .literal values, b => do
    allOf (world.partBelow conforms b) (← world.literalType conforms values).arms
  | .tuple elements, .tuple others =>
    if elements.length != others.length then return false
    else allOf (fun pair => world.subtype conforms pair.1 pair.2) (elements.zip others)
  | .type inner, .type other => world.subtype conforms inner other
  | a, .cls target => return (← world.upcast conforms a target).isSome
  | a, .app target others => do
    match ← world.upcast conforms a target with
    | none => return false
    | some args => allOf (world.argBelow conforms) (args.zip others)
  | _, _ => return false

theorem subtype_of_arms (left : a.isArm) (right : b.isArm) :
    world.subtype conforms a b =
      if a.identical b then return true else world.armBelow conforms a b := by
  unfold subtype
  split
  · cases right
  · cases left
  · cases left
  · cases right
  · unfold armBelow
    simp only [← allOf_attach _ (_ : List (Ty × Ty))]
    rfl

end Equations

variable {m : Type → Type} [Monad m] [Accountable m] {world : World m} {conforms : Conforms m}
  {fit : Ty → Prop} {fair : Fault → Prop}

/-- Types are fit if their parts are, and the world answers which class a fit type is an instance
of, with fit arguments. -/
structure Serves (world : World m) (conforms : Conforms m) (fit : Ty → Prop) : Prop where
  any : fit .any
  cls : ∀ ref, fit (.cls ref)
  bound : ∀ {name bound}, fit (.var name (some bound)) → fit bound
  args : ∀ {ref args}, fit (.app ref args) → ∀ arg ∈ args, fit arg
  elements : ∀ {elements}, fit (.tuple elements) → ∀ element ∈ elements, fit element
  arms : ∀ {arms}, fit (.union arms) → ∀ arm ∈ arms, fit arm
  inner : ∀ {inner}, fit (.type inner) → fit inner
  upcast : ∀ {t}, fit t → ∀ target,
    Yields (fun found => ∀ args ∈ found, ∀ arg ∈ args, fit arg) (world.upcast conforms t target)
  literals : ∀ values, Ends (world.literalType conforms values)

/-- The relation is decided where its world serves both types. -/
theorem subtype_ends (serves : world.Serves conforms fit) (a b : Ty) (left : fit a) (right : fit b) :
    Ends (world.subtype conforms a b) := by
  fun_induction world.subtype conforms a b with
  | case3 _ _ _ ih => exact allOf_ends fun arm _ => ih arm (serves.arms left _ arm.2) right
  | case4 _ _ _ _ ih => exact anyOf_ends fun arm _ => ih arm left (serves.arms right _ arm.2)
  | case6 _ _ _ _ _ _ _ _ ih => exact ih (serves.bound left) right
  | case9 _ _ _ _ _ _ _ _ ih =>
    refine Accountable.bind (serves.literals _) fun t _ => allOf_ends fun arm _ => ?_
    split
    · exact ih _ (serves.cls _) right
    · exact ends_pure _
  | case11 _ _ _ _ _ _ _ _ ih =>
    refine allOf_ends fun pair _ => ih pair ?_ ?_
    · exact serves.elements left _ (of_mem_zip pair.2).1
    · exact serves.elements right _ (of_mem_zip pair.2).2
  | case12 _ _ _ _ _ _ _ ih => exact ih (serves.inner left) (serves.inner right)
  | case13 => exact Accountable.bind (serves.upcast left _) fun _ _ => ends_pure _
  | case14 _ _ _ _ _ _ _ _ _ _ ih =>
    refine Accountable.bind (serves.upcast left _) fun args fits => ?_
    split
    · exact ends_pure _
    · refine allOf_ends fun pair _ => ?_
      split
      · exact ends_pure _
      · exact ih _ pair (fits _ rfl _ (of_mem_zip pair.2).1) (serves.args right _ (of_mem_zip pair.2).2)
  | _ => exact ends_pure _

theorem belowSome_ends (serves : world.Serves conforms fit)
    (left : fit concrete) (right : ∀ arm ∈ arms, fit arm) :
    Ends (world.belowSome conforms concrete arms) := by
  refine anyOf_ends fun arm member => ?_
  split
  · exact ends_pure _
  · exact subtype_ends serves concrete arm left (right arm member)

end World

namespace Subst

variable {fit : Ty → Prop} {bindings : Subst} {name : String} {t : Ty}

def Fits (fit : Ty → Prop) (bindings : Subst) : Prop :=
  ∀ entry ∈ bindings, fit entry.2

theorem Fits.of_get? (fits : bindings.Fits fit) (known : bindings.get? name = some t) : fit t :=
  fits _ (mem_of_get? known)

theorem Fits.set (fits : bindings.Fits fit) (holds : fit t) (name : String) :
    Fits fit (bindings.set name t) := by
  intro entry member
  rcases mem_of_mem_set member with rfl | member
  · exact holds
  · exact fits entry member

end Subst

namespace World

open Subst

variable {m : Type → Type} [Monad m] [Accountable m] {world : World m} {conforms : Conforms m}
  {fit : Ty → Prop} {fair : Fault → Prop} {invariant : Subst → Prop} {bindings : Subst}

/-- What matching relies on: joins of fit types are fit, its faults are fair, and the invariant of
the bindings is kept where a parameter without a binding is bound to a fit type. -/
structure Binds (world : World m) (conforms : Conforms m) (fit : Ty → Prop)
    (fair : Fault → Prop) (invariant : Subst → Prop) : Prop extends world.Serves conforms fit where
  join : ∀ {a b}, fit a → fit b → Yields fit (joinWith (world.subtype conforms) a b)
  conflict : ∀ name existing t, fair (Matched.conflict name existing t)
  tooDeep : ∀ formal concrete, fair (Matched.tooDeep formal concrete)
  fits : ∀ {bindings}, invariant bindings → Fits fit bindings
  set : ∀ {bindings name t}, invariant bindings → bindings.get? name = none → fit t →
    invariant (bindings.set name t)

/-- A match that ends with the invariant, whether it fails or not. -/
abbrev Upholds (fair : Fault → Prop) (invariant : Subst → Prop) (run : m Matched) : Prop :=
  Yields (fun result => (∀ fault ∈ result.1, fair fault) ∧ invariant result.2) run

theorem upholds_none (holds : invariant bindings) :
    Upholds fair invariant (return (none, bindings) : m Matched) :=
  Accountable.pure ⟨fun _ found => (by cases found), holds⟩

theorem upholds_some {fault : Fault} (holds : invariant bindings) (known : fair fault) :
    Upholds fair invariant (return (some fault, bindings) : m Matched) :=
  Accountable.pure ⟨fun _ found => Option.some.inj found ▸ known, holds⟩

theorem Upholds.andThen {run : m Matched} {next : Subst → m Matched} (first : Upholds fair invariant run)
    (second : ∀ {after}, invariant after → Upholds fair invariant (next after)) :
    Upholds fair invariant (do
      match ← run with
      | (some fault, after) => return (some fault, after)
      | (none, after) => next after) := by
  refine Accountable.bind first fun result holds => ?_
  obtain ⟨_ | fault, after⟩ := result
  · exact second holds.2
  · exact Accountable.pure holds

section Steps

variable {step : Subst → Ty → Ty → m Matched}
  (steps : ∀ {bindings formal concrete}, invariant bindings → fit formal → fit concrete →
    Upholds fair invariant (step bindings formal concrete))
include steps

theorem matchPairs_upholds {pairs : List (Ty × Ty)}
    (each : ∀ pair ∈ pairs, fit pair.1 ∧ fit pair.2) (holds : invariant bindings) :
    Upholds fair invariant (matchPairs step bindings pairs) := by
  induction pairs generalizing bindings with
  | nil => exact upholds_none holds
  | cons _ _ ih =>
    obtain ⟨⟨left, right⟩, others⟩ := forall_mem_cons.mp each
    exact (steps holds left right).andThen (ih others)

theorem matchSome_upholds
    (left : ∀ formal ∈ formals, fit formal) (right : fit concrete) (holds : invariant bindings)
    {first : Option Fault} (known : ∀ fault ∈ first, fair fault) :
    Upholds fair invariant (matchSome step bindings concrete first formals) := by
  induction formals generalizing first with
  | nil => exact Accountable.pure ⟨known, holds⟩
  | cons _ _ ih =>
    obtain ⟨here, others⟩ := forall_mem_cons.mp left
    refine Accountable.bind (steps holds here right) fun result ⟨fault, after⟩ => ?_
    obtain ⟨_ | fault, bound⟩ := result
    · exact upholds_none after
    · refine ih others fun other same => ?_
      cases same
      cases first with
      | none => exact fault _ rfl
      | some first => exact known first rfl

end Steps

variable (binds : world.Binds conforms fit fair invariant)
include binds

theorem bindRest_invariant (names : List String) (holds : invariant bindings) :
    invariant (bindRest names bindings) := by
  induction names generalizing bindings with
  | nil => exact holds
  | cons name rest ih =>
    refine ih ?_
    dsimp only
    split
    · exact holds
    · rename_i free
      exact binds.set holds (Option.isNone_iff_eq_none.mp (by simpa [Table.contains] using free)) binds.any

theorem bindParam_upholds (name : String) {t : Ty} (right : fit t) (holds : invariant bindings) :
    Upholds fair invariant (world.bindParam conforms name t bindings) := by
  rw [bindParam]
  split
  · exact upholds_none holds
  split
  · rename_i free
    exact upholds_none (binds.set holds free right)
  rename_i existing known
  split
  · exact upholds_none holds
  refine Accountable.bind (subtype_ends binds.toServes t existing right ((binds.fits holds).of_get? known))
    fun below _ => ?_
  split
  · exact upholds_none holds
  · exact upholds_some holds (binds.conflict ..)

theorem bindAll_upholds {entries : List (String × Ty)} (each : ∀ entry ∈ entries, fit entry.2)
    (holds : invariant bindings) :
    Upholds fair invariant (world.bindAll conforms bindings entries) := by
  induction entries generalizing bindings with
  | nil => exact upholds_none holds
  | cons _ _ ih =>
    obtain ⟨first, others⟩ := forall_mem_cons.mp each
    exact (bindParam_upholds binds _ first holds).andThen (ih others)

theorem joinBindings_fits (before : Subst) {bound : List (String × Ty)}
    (left : Fits fit joined) (right : Fits fit bound) :
    Yields (Fits fit) (world.joinBindings conforms before joined bound) := by
  induction bound generalizing joined with
  | nil => exact Accountable.pure left
  | cons entry rest ih =>
    obtain ⟨name, t⟩ := entry
    obtain ⟨here, others⟩ := forall_mem_cons.mp right
    rw [joinBindings]
    split
    · exact ih left others
    have later {both : Ty} (holds : fit both) := ih (left.set holds name) others
    split
    · exact Accountable.bind (Accountable.pure here) fun both => later
    · rename_i known
      exact Accountable.bind (binds.join (left.of_get? known) here) fun both => later

theorem matchArms_fits {step : Subst → Ty → Ty → m Matched}
    (steps : ∀ {bindings formal concrete}, invariant bindings → fit formal → fit concrete →
      Upholds fair invariant (step bindings formal concrete))
    {formal : Ty} (holds : invariant bindings)
    (left : fit formal) (collected : Fits fit joined) (right : ∀ arm ∈ arms, fit arm) :
    Yields (fun result => (∀ fault, result = .error fault → fair fault) ∧
        ∀ joined, result = .ok joined → Fits fit joined)
      (world.matchArms conforms step bindings formal joined arms) := by
  induction arms generalizing joined with
  | nil =>
    refine Accountable.pure ⟨fun _ same => ?_, fun _ same => ?_⟩
    · cases same
    · cases same
      exact collected
  | cons _ _ ih =>
    obtain ⟨here, others⟩ := forall_mem_cons.mp right
    refine Accountable.bind (steps holds left here) fun result ⟨fault, after⟩ => ?_
    obtain ⟨_ | fault, bound⟩ := result
    · exact Accountable.bind (joinBindings_fits binds bindings collected (binds.fits after))
        fun joined fits => ih fits others
    · refine Accountable.pure ⟨fun other same => ?_, fun _ same => ?_⟩
      · cases same
        exact fault _ rfl
      · cases same

omit binds in
theorem argPairs_fit (any : fit .any) {concretes : List Ty} (left : ∀ t ∈ formals, fit t)
    (right : ∀ t ∈ concretes, fit t) :
    ∀ pair ∈ argPairs formals concretes, fit pair.1 ∧ fit pair.2 := by
  fun_induction argPairs formals concretes with
  | case1 => exact forall_mem_nil _
  | case2 _ _ ih =>
    obtain ⟨first, others⟩ := forall_mem_cons.mp left
    exact forall_mem_cons.mpr ⟨⟨first, any⟩, ih others right⟩
  | case3 _ formals _ concretes ih =>
    obtain ⟨first, formals⟩ := forall_mem_cons.mp left
    obtain ⟨second, concretes⟩ := forall_mem_cons.mp right
    exact forall_mem_cons.mpr ⟨⟨first, second⟩, ih formals concretes⟩

/-- Matching keeps what setting a variable keeps, whatever it comes to. -/
theorem matchWithin_upholds (depth : Nat) {formal concrete : Ty} (holds : invariant bindings)
    (left : fit formal) (right : fit concrete) :
    Upholds fair invariant (world.matchWithin conforms depth bindings formal concrete) := by
  induction depth generalizing bindings formal concrete with
  | zero => exact upholds_some holds (binds.tooDeep ..)
  | succ depth ih =>
    unfold matchWithin
    split
    · exact upholds_none holds
    split
    · exact bindParam_upholds binds _ right holds
    · exact upholds_none (bindRest_invariant binds _ holds)
    · rename_i arms _ _
      refine Accountable.bind (belowSome_ends binds.toServes right (binds.arms left)) fun below _ => ?_
      split
      · exact upholds_none holds
      have open_ : ∀ arm ∈ arms.filter (·.hasFreeVars), fit arm :=
        fun arm member => binds.arms left arm (mem_filter.mp member).1
      split
      · rename_i arm single
        exact ih holds (open_ arm (single ▸ mem_cons_self)) right
      · exact matchSome_upholds ih open_ right holds fun _ none => by cases none
    · have none : Fits fit [] := forall_mem_nil _
      refine Accountable.bind (matchArms_fits binds ih holds left none (binds.arms right))
        fun result fits => ?_
      split
      · exact upholds_some holds (fits.1 _ rfl)
      · refine bindAll_upholds binds (fun entry member => ?_) holds
        exact fits.2 _ rfl entry ((mergeSort_perm ..).mem_iff.mp member)
    · dsimp only
      split
      · rename_i elements same
        have each : ∀ element ∈ elements, fit element := by
          split at same
          · split at same
            · cases same
              exact binds.elements right
            · cases same
          · cases same
        refine matchPairs_upholds ih (fun pair member => ?_) holds
        obtain ⟨first, second⟩ := of_mem_zip member
        exact ⟨binds.elements left _ first, each _ second⟩
      refine Accountable.bind (binds.upcast right _) fun args fits => ?_
      split
      · exact upholds_none holds
      · rename_i args
        refine matchPairs_upholds ih (fun pair member => ?_) holds
        obtain ⟨formal, listed, rfl⟩ := mem_map.mp member
        refine ⟨binds.elements left formal listed, ?_⟩
        cases args with
        | nil => exact binds.any
        | cons arg => exact fits _ rfl arg mem_cons_self
    · refine Accountable.bind (binds.upcast right _) fun args fits => ?_
      split
      · exact upholds_none holds
      · exact matchPairs_upholds ih (argPairs_fit binds.any (binds.args left) (fits _ rfl)) holds
    · exact ih holds (binds.inner left) (binds.inner right)
    · exact upholds_none holds

end World

end Stubwise
