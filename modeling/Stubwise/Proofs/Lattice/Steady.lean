import Stubwise.Proofs.Lattice.Answers
import Stubwise.Proofs.Ty.ObjectFree

namespace Stubwise

open List Ty

namespace Registry

variable {α β : Type} {registry : Registry} {post : α → Prop} {next : α → Run β} {first : Run α}

/-- No class is a protocol, and no base mentions an instance. -/
def nominal (registry : Registry) : Bool :=
  registry.classes.all fun entry =>
    !entry.2.cls.isProtocol && allObjectFree entry.2.cls.bases

theorem nominal_of_lookup {ref : ClassRef} {cls : Class} (plain : registry.nominal)
    (found : registry.lookup ref = .ok cls) :
    cls.isProtocol = false ∧ allObjectFree cls.bases = true := by
  rw [lookup] at found
  split at found
  · rename_i declaration known
    cases found
    have entry := all_eq_true.mp plain _ (Table.mem_of_get? known)
    simpa using entry
  · cases found

def inModule (name : String) : ClassRef :=
  { module := "m", name }

def generic (name : String) (params : List String) (bases : List Ty) : Declaration :=
  { cls := { ref := inModule name, params := params.map ({ name := · }), bases } }

def applied (name : String) (params : List String) : Ty :=
  .app (inModule name) (params.map (.var · none))

/-- `Box[T]` below `Iter[T]`. -/
def boxes : Registry where
  classes := [("m.Iter", generic "Iter" ["T"] []), ("m.Box", generic "Box" ["T"] [applied "Iter" ["T"]])]

/-- The run gives a value with the property and leaves the registry as it is. -/
def Gives (registry : Registry) (post : α → Prop) (run : Run α) : Prop :=
  ∃ value, post value ∧ run.run registry = .ok (value, registry)

theorem gives_pure {value : α} (holds : post value) : Gives registry post (pure value) := ⟨value, holds, rfl⟩

theorem run_bind_of_ok {after : Registry} {value : α} (ran : first.run registry = .ok (value, after)) :
    (first >>= next).run registry = (next value).run after := by
  rw [StateT.run_bind, ran]
  rfl

theorem run_bind_of_error {crash : Crash} (ran : first.run registry = .error crash) :
    (first >>= next).run registry = .error crash := by
  rw [StateT.run_bind, ran]
  rfl

theorem Gives.bind {mid : α → Prop} {post : β → Prop}
    (before : Gives registry mid first) (after : ∀ value, mid value → Gives registry post (next value)) :
    Gives registry post (first >>= next) := by
  obtain ⟨value, holds, ran⟩ := before
  obtain ⟨result, fits, done⟩ := after value holds
  exact ⟨result, fits, (run_bind_of_ok ran).trans done⟩

/-- What is said of runs on a registry that stays as it is. -/
@[reducible]
def account (registry : Registry) : Accountable Run where
  Yields := Gives registry
  pure := gives_pure
  bind := Gives.bind

theorem Gives.imp {post weaker : α → Prop} {run : Run α} (given : Gives registry post run)
    (implies : ∀ value, post value → weaker value) : Gives registry weaker run := by
  obtain ⟨value, holds, ran⟩ := given
  exact ⟨value, implies value holds, ran⟩

theorem gives_lookup (ref : ClassRef) :
    Gives registry (· = registry.lookup ref) (world.lookup ref) :=
  ⟨registry.lookup ref, rfl, rfl⟩

section Together

variable {γ δ : Type} {rel : α → β → Prop} {left : Run α} {right : Run β}

/-- Two runs that leave the registry as it is and come to related values. -/
def Together (registry : Registry) (rel : α → β → Prop) (left : Run α) (right : Run β) : Prop :=
  Gives registry (fun a => Gives registry (rel a) right) left

theorem together_pure {a : α} {b : β} (holds : rel a b) :
    Together registry rel (pure a) (pure b) :=
  gives_pure (gives_pure holds)

theorem Gives.together {post' : β → Prop} (first : Gives registry post left)
    (second : Gives registry post' right) (related : ∀ {a b}, post a → post' b → rel a b) :
    Together registry rel left right :=
  first.imp fun _ holds => second.imp fun _ holds' => related holds holds'

theorem Gives.twice (given : Gives registry post left) :
    Together registry (fun a b => a = b ∧ post a) left left := by
  obtain ⟨a, holds, ran⟩ := given
  exact ⟨a, ⟨a, ⟨rfl, holds⟩, ran⟩, ran⟩

theorem Together.bind {next : α → Run γ} {next' : β → Run δ} {after : γ → δ → Prop}
    (first : Together registry rel left right)
    (then_ : ∀ {a b}, rel a b → Together registry after (next a) (next' b)) :
    Together registry after (left >>= next) (right >>= next') := by
  obtain ⟨a, ⟨b, holds, ranRight⟩, ranLeft⟩ := first
  obtain ⟨c, ⟨d, ends, endRight⟩, endLeft⟩ := then_ holds
  exact ⟨c, ⟨d, ends, (run_bind_of_ok ranRight).trans endRight⟩, (run_bind_of_ok ranLeft).trans endLeft⟩

theorem Together.branch {question question' : Run Bool} {yes no : Run α} {yes' no' : Run β}
    (asked : Together registry Eq question question')
    (first : Together registry rel yes yes') (second : Together registry rel no no') :
    Together registry rel (do if ← question then yes else no)
      (do if ← question' then yes' else no') := by
  refine asked.bind fun {answer _} same => ?_
  subst same
  split
  · exact first
  · exact second

end Together

end Registry

namespace World

open Registry

variable {α : Type} {registry : Registry} {subst : Subst} {t : Ty}

theorem apply_gives (images : subst.objectFree) (free : t.objectFree) :
    Gives registry (· = subst.apply t) (world.apply subst t) := by
  rw [apply, free, images]
  exact gives_pure rfl

theorem searchBases_gives {post : α → Prop}
    {visit : ClassRef → List Ty → List String → Run (Option α × List String)}
    (visits : ∀ ref args visited, allObjectFree args = true →
      Gives registry (fun result => ∀ found ∈ result.1, post found) (visit ref args visited))
    (images : subst.objectFree) {bases : List Ty} (free : allObjectFree bases) (visited : List String) :
    Gives registry (fun result => ∀ found ∈ result.1, post found)
      (world.searchBases visit subst bases visited) := by
  induction bases generalizing visited with
  | nil =>
    exact gives_pure (by simp)
  | cons base rest ih =>
    simp only [allObjectFree, Bool.and_eq_true] at free
    refine (apply_gives images free.1).bind fun applied same => ?_
    subst same
    split
    · exact ih free.2 visited
    · rename_i ref args counted
      have argsFree := nominal?_objectFree (Subst.apply_objectFree images free.1) counted
      refine (visits ref args visited argsFree).bind fun result fits => ?_
      obtain ⟨_ | found, visited⟩ := result
      · exact ih free.2 visited
      · exact gives_pure fits

section

variable (basesFree : ∀ {ref cls}, registry.lookup ref = .ok cls → allObjectFree cls.bases = true)
include basesFree

theorem upcastWithin_gives (target : ClassRef) (depth : Nat) (ref : ClassRef)
    {args : List Ty} (free : allObjectFree args) (visited : List String) :
    Gives registry (fun result => ∀ args ∈ result.1, allObjectFree args = true)
      (world.upcastWithin target depth ref args visited) := by
  induction depth generalizing ref args visited with
  | zero =>
    rw [upcastWithin]
    split
    · exact gives_pure fun found same => Option.some.inj same ▸ free
    split
    · exact gives_pure fun found same => Option.some.inj same ▸ rfl
    · exact gives_pure (by simp)
  | succ depth ih =>
    rw [upcastWithin]
    split
    · exact gives_pure fun found same => Option.some.inj same ▸ free
    split
    · exact gives_pure fun found same => Option.some.inj same ▸ rfl
    split
    · exact gives_pure (by simp)
    refine (gives_lookup ref).bind fun answer same => ?_
    split
    · exact gives_pure (by simp)
    · rename_i cls
      refine searchBases_gives (fun ref args visited free => ih ref free visited)
        (cls.subst_objectFree free) (basesFree same.symm) _

theorem upcastClass_gives (ref target : ClassRef) {args : List Ty} (free : allObjectFree args) :
    Gives registry (fun result => ∀ args ∈ result, allObjectFree args = true)
      (world.upcastClass ref args target) :=
  (upcastWithin_gives basesFree target _ ref free []).bind fun _ fits => gives_pure fits

end

theorem conforms_gives (plain : registry.nominal) (t : Ty) (target : ClassRef) :
    Gives registry (· = none) (world.conforms t target) := by
  refine (gives_lookup target).bind fun answer same => ?_
  split
  · exact gives_pure rfl
  · rw [(nominal_of_lookup plain same.symm).1]
    exact gives_pure rfl

theorem asInstanceOf_gives (plain : registry.nominal) (free : t.objectFree) (target : ClassRef) :
    Gives registry (fun result => ∀ args ∈ result, allObjectFree args = true)
      (world.asInstanceOf t target) := by
  rw [asInstanceOf, upcast]
  split
  · exact gives_pure (by simp)
  · rename_i ref args counted
    refine (upcastClass_gives (fun found => (nominal_of_lookup plain found).2) ref target
      (nominal?_objectFree free counted)).bind fun result fits => ?_
    cases result with
    | some => exact gives_pure fits
    | none =>
      refine (conforms_gives plain t target).imp fun result unknown found same => ?_
      rw [unknown] at same
      cases same

end World

namespace Lattice

open Registry

variable {registry : Registry} {sub : Ty → Ty → Run Bool}

theorem equal_eq_identical {a b : Ty} (left : a.objectFree) (right : b.objectFree) :
    a.equal b = a.identical b := by
  have same {t : Ty} (free : t.objectFree) : equal.instanceClass t = t := by
    cases t with
    | object => cases free
    | _ => rfl
  rw [equal, same left, same right]

/-- What a question comes to, asked of the registry as it is. -/
def answer (registry : Registry) (sub : Ty → Ty → Run Bool) (a b : Ty) : Bool :=
  match (sub a b).run registry with
  | .ok (holds, _) => holds
  | .error _ => false

/-- Whether questions about types without instances are answered, with the registry left as
it is. -/
def Settled (registry : Registry) (sub : Ty → Ty → Run Bool) : Prop :=
  ∀ a b, a.objectFree = true → b.objectFree = true →
    Gives registry (· = answer registry sub a b) (sub a b)

theorem settled_of_gives (answers : ∀ a b, a.objectFree = true → b.objectFree = true →
    Gives registry (fun _ => True) (sub a b)) : Settled registry sub := by
  intro a b left right
  obtain ⟨holds, _, ran⟩ := answers a b left right
  exact ⟨holds, by rw [answer, ran], ran⟩

section Joins

variable {arm a b : Ty} {arms : List Ty}

/-- What makes one arm of a union redundant beside another one: it lies below the other, and the
other is not below it or comes earlier. -/
structure Outdone (below : Ty → Ty → Bool) (index : Nat) (arm : Ty) (place : Nat) (other : Ty) :
    Prop where
  elsewhere : index ≠ place
  differ : arm.identical other = false
  isBelow : below arm other = true
  prior : below other arm = false ∨ place < index

/-- An arm that another one of the union outdoes. -/
def Redundant (below : Ty → Ty → Bool) (arms : List Ty) (index : Nat) (arm : Ty) : Prop :=
  ∃ place other, arms[place]? = some other ∧ Outdone below index arm place other

theorem redundantArm_gives (settled : Settled registry sub) (index : Nat)
    (free : arm.objectFree) (passed : List Ty) {others : List Ty}
    (othersFree : ∀ other ∈ others, other.objectFree = true)
    (unmatched : ¬Redundant (answer registry sub) passed index arm) :
    Gives registry (fun found => found = true ↔ Redundant (answer registry sub) (passed ++ others) index arm)
      (redundantArm sub index arm passed.length others) := by
  induction others generalizing passed with
  | nil =>
    rw [append_nil]
    refine gives_pure ⟨fun found => ?_, fun found => absurd found unmatched⟩
    cases found
  | cons other rest ih =>
    have otherFree := othersFree other mem_cons_self
    have later (skipped : ¬Outdone (answer registry sub) index arm passed.length other) := by
      have still : ¬Redundant (answer registry sub) (passed ++ [other]) index arm := by
        rintro ⟨place, t, known, outdone⟩
        rcases Nat.lt_trichotomy place passed.length with early | here | late
        · rw [getElem?_append_left early] at known
          exact unmatched ⟨place, t, known, outdone⟩
        · subst here
          simp only [getElem?_concat_length, Option.some.injEq] at known
          exact skipped (known ▸ outdone)
        · rw [getElem?_eq_none (by simp; omega)] at known
          cases known
      have next := ih (passed ++ [other]) (forall_mem_cons.mp othersFree).2 still
      rwa [length_append, append_assoc] at next
    rw [redundantArm]
    split
    · rename_i same
      refine later fun outdone => ?_
      simp [outdone.elsewhere, outdone.differ] at same
    rename_i apart
    simp only [Bool.or_eq_true, beq_iff_eq, not_or, Bool.not_eq_true] at apart
    refine (settled arm other free otherFree).bind fun below same => ?_
    subst same
    split
    · rename_i isBelow
      refine (settled other arm otherFree free).bind fun above same => ?_
      subst same
      split
      · rename_i prior
        simp only [Bool.or_eq_true, Bool.not_eq_true', decide_eq_true_eq] at prior
        have outdone : Outdone (answer registry sub) index arm passed.length other :=
          ⟨apart.1, apart.2, isBelow, prior⟩
        have here : (passed ++ other :: rest)[passed.length]? = some other := by simp
        exact gives_pure ⟨fun _ => ⟨_, other, here, outdone⟩, fun _ => rfl⟩
      · rename_i later'
        simp only [Bool.or_eq_true, Bool.not_eq_true', decide_eq_true_eq] at later'
        exact later fun outdone => later' outdone.prior
    · rename_i notBelow
      exact later fun outdone => notBelow outdone.isBelow

/-- Only redundant arms are dropped. -/
theorem keptArms_gives (settled : Settled registry sub)
    (armsFree : ∀ arm ∈ arms, arm.objectFree = true) (index : Nat) {rest : List Ty}
    (restFree : ∀ arm ∈ rest, arm.objectFree = true) :
    Gives registry
      (fun kept => kept.Sublist rest ∧ ∀ place arm, rest[place]? = some arm →
        ¬Redundant (answer registry sub) arms (index + place) arm → arm ∈ kept)
      (keptArms sub arms index rest) := by
  induction rest generalizing index with
  | nil =>
    refine gives_pure ⟨.slnil, fun place arm known => ?_⟩
    simp at known
  | cons arm rest ih =>
    have none : ¬Redundant (answer registry sub) [] index arm := by
      rintro ⟨place, other, known, _⟩
      simp at known
    have others := ih (index + 1) fun t member => restFree t (mem_cons_of_mem arm member)
    have shift (place : Nat) : index + (place + 1) = index + 1 + place := by omega
    refine (redundantArm_gives settled index (restFree arm mem_cons_self) [] armsFree
      none).bind fun found redundant => ?_
    split
    · rename_i dropped
      refine others.imp fun kept ⟨below, stays⟩ => ⟨below.cons _, fun place t known needed => ?_⟩
      cases place with
      | zero =>
        cases known
        exact absurd (redundant.mp dropped) needed
      | succ place => exact stays place t known (shift place ▸ needed)
    · refine others.bind fun kept ⟨below, stays⟩ =>
        gives_pure ⟨below.cons_cons _, fun place t known needed => ?_⟩
      cases place with
      | zero =>
        cases known
        exact mem_cons_self
      | succ place => exact mem_cons_of_mem _ (stays place t known (shift place ▸ needed))

/-- A union less some of its redundant arms. -/
def Absorbed (below : Ty → Ty → Bool) (t result : Ty) : Prop :=
  ∃ kept : List Ty, result = unionOf kept ∧ kept.Sublist t.arms ∧
    ∀ place arm, t.arms[place]? = some arm → ¬Redundant below t.arms place arm → arm ∈ kept

theorem absorb_gives (settled : Settled registry sub) (free : a.objectFree) :
    Gives registry (fun result => result = a ∨ Absorbed (answer registry sub) a result) (absorb sub a) := by
  cases a with
  | union =>
    have armsFree := allObjectFree_iff.mp free
    refine (keptArms_gives settled armsFree 0 armsFree).bind fun kept ⟨below, stays⟩ =>
      gives_pure (.inr ⟨kept, rfl, below, fun place arm known needed => ?_⟩)
    exact stays place arm known ((Nat.zero_add place).symm ▸ needed)
  | _ => exact gives_pure (.inl rfl)

/-- What the join of two types can come to. -/
inductive Joined (below : Ty → Ty → Bool) (a b : Ty) : Ty → Prop where
  | any (known : a.isAny = true ∨ b.isAny = true) : Joined below a b .any
  | same (identical : a.identical b) : Joined below a b a
  | right (isBelow : below a b) : Joined below a b b
  | left (isBelow : below b a) : Joined below a b a
  | whole (apart : below a b = false ∧ below b a = false) : Joined below a b (.unionOf [a, b])
  | absorbed {result : Ty} (apart : below a b = false ∧ below b a = false)
      (kept : Absorbed below (.unionOf [a, b]) result) : Joined below a b result

theorem joinPlain_gives (settled : Settled registry sub) (left : a.objectFree) (right : b.objectFree) :
    Gives registry (Joined (answer registry sub) a b) (joinPlain sub a b) := by
  refine (settled a b left right).bind fun below same => ?_
  refine (settled b a right left).bind fun above same' => ?_
  subst same same'
  split
  · rename_i below above
    split
    · exact gives_pure (.left above)
    · exact gives_pure (.right below)
  · rename_i below above
    exact gives_pure (.right below)
  · rename_i below above
    exact gives_pure (.left above)
  · rename_i below above
    have free : (unionOf [a, b]).objectFree = true := unionOf_objectFree (by simp [left, right])
    refine (absorb_gives settled free).imp fun result outcome => ?_
    rcases outcome with rfl | kept
    · exact .whole ⟨below, above⟩
    · exact .absorbed ⟨below, above⟩ kept

theorem joinWith_eq (left : a.objectFree) (right : b.objectFree) :
    joinWith sub a b =
      if a.isAny || b.isAny then return .any
      else if a.identical b then return a
      else joinPlain sub a b := by
  cases a with
  | object => cases left
  | _ =>
    cases b with
    | object => cases right
    | _ => rfl

theorem joinWith_gives (settled : Settled registry sub) (left : a.objectFree) (right : b.objectFree) :
    Gives registry (Joined (answer registry sub) a b) (joinWith sub a b) := by
  rw [joinWith_eq left right]
  split
  · rename_i known
    exact gives_pure (.any (Bool.or_eq_true_iff.mp known))
  split
  · rename_i identical
    exact gives_pure (.same identical)
  · exact joinPlain_gives settled left right

theorem Joined.objectFree {below : Ty → Ty → Bool} {result : Ty}
    (joined : Joined below a b result) (left : a.objectFree) (right : b.objectFree) :
    result.objectFree = true := by
  have free : (unionOf [a, b]).objectFree = true := unionOf_objectFree (by simp [left, right])
  cases joined with
  | any => rfl
  | same | left => exact left
  | right => exact right
  | whole => exact free
  | absorbed _ kept =>
    obtain ⟨arms, rfl, part, _⟩ := kept
    exact unionOf_objectFree fun arm member => arms_objectFree free arm (part.mem member)

inductive JoinedFrom (below : Ty → Ty → Bool) : Option Ty → List Ty → Option Ty → Prop where
  | done (joined : Option Ty) : JoinedFrom below joined [] joined
  | first {t : Ty} {rest : List Ty} {result : Option Ty}
      (later : JoinedFrom below (some t) rest result) : JoinedFrom below none (t :: rest) result
  | next {joined t both : Ty} {rest : List Ty} {result : Option Ty}
      (step : Joined below joined t both) (later : JoinedFrom below (some both) rest result) :
      JoinedFrom below (some joined) (t :: rest) result

theorem joinFrom_gives (settled : Settled registry sub) {joined : Option Ty} {types : List Ty}
    (left : optionObjectFree joined) (right : ∀ t ∈ types, t.objectFree = true) :
    Gives registry (JoinedFrom (answer registry sub) joined types) (joinFrom sub joined types) := by
  induction types generalizing joined with
  | nil => exact gives_pure (.done joined)
  | cons t rest ih =>
    have free := right t mem_cons_self
    have restFree := fun other member => right other (mem_cons_of_mem t member)
    cases joined with
    | none => exact (@ih (some t) free restFree).imp fun _ later => .first later
    | some joined =>
      rw [joinFrom, joinOption, bind_assoc]
      refine (joinWith_gives settled left free).bind fun both step => ?_
      exact (@ih (some both) (step.objectFree left free) restFree).imp fun _ later => .next step later

theorem joinAllWith_gives (settled : Settled registry sub) {types : List Ty}
    (free : ∀ t ∈ types, t.objectFree = true) :
    Gives registry
      (fun result => ∃ joined, JoinedFrom (answer registry sub) none types joined ∧ result = joined.getD .any)
      (joinAllWith sub types) :=
  (joinFrom_gives settled rfl free).bind fun joined steps => gives_pure ⟨joined, steps, rfl⟩

end Joins

end Lattice

namespace World

open Registry Lattice

variable {registry : Registry} {bindings : Subst}

section

variable (plain : registry.nominal)
include plain

theorem subclass_gives (a b : ClassRef) :
    Gives registry (fun _ => True) (world.subclass world.conforms a b) := by
  rw [subclass]
  split
  · exact gives_pure trivial
  · exact (asInstanceOf_gives plain (t := .cls a) rfl b).bind fun _ _ => gives_pure trivial

theorem subtypeOfClasses_gives (a b : Ty) :
    Gives registry (fun _ => True) (world.subtypeOfClasses world.conforms a b) := by
  let _ := registry.account
  refine allOf_ends (m := Run) fun arm _ => anyOf_ends (m := Run) fun other _ => ?_
  split
  · exact subclass_gives plain _ _
  · exact gives_pure trivial

theorem literalType_gives (values : List LiteralValue) :
    Gives registry (fun _ => True) (world.literalType world.conforms values) := by
  refine (joinAllWith_gives (settled_of_gives fun a b _ _ => subtypeOfClasses_gives plain a b)
    (forall_mem_map.mpr fun _ _ => rfl)).imp fun _ _ => trivial

theorem serves_objectFree :
    @Serves _ _ registry.account world world.conforms (·.objectFree = true) :=
  let _ := registry.account
  { any := rfl
    cls := fun _ => rfl
    bound := id
    args := allObjectFree_iff.mp
    elements := allObjectFree_iff.mp
    arms := allObjectFree_iff.mp
    inner := id
    upcast := fun free target => (asInstanceOf_gives plain free target).imp
      fun _ each args found => allObjectFree_iff.mp (each args found)
    literals := literalType_gives plain }

theorem subtype_gives (a b : Ty) (left : a.objectFree) (right : b.objectFree) :
    Gives registry (fun _ => True) (world.subtype world.conforms a b) :=
  @subtype_ends _ _ registry.account _ _ _ (serves_objectFree plain) a b left right

theorem isSubtype_settled :
    Settled registry world.isSubtype :=
  settled_of_gives fun a b left right => subtype_gives plain a b left right

end

/-- A match that ends with bindings that mention no instance. -/
def Matches (registry : Registry) (run : Run Matched) : Prop :=
  Gives registry (fun result => result.2.objectFree = true) run

theorem binds_objectFree (plain : registry.nominal) :
    @Binds _ _ registry.account world world.conforms (·.objectFree = true)
      (fun _ => True) (·.objectFree = true) :=
  let _ := registry.account
  { toServes := serves_objectFree plain
    join := fun left right => (joinWith_gives (isSubtype_settled plain) left right).imp
      fun _ joined => joined.objectFree left right
    conflict := fun _ _ _ => trivial
    tooDeep := fun _ _ => trivial
    fits := all_eq_true.mp
    set := fun bound _ free => Subst.set_objectFree bound free }

theorem matchWithin_matches (plain : registry.nominal) (depth : Nat)
    (bindings : Subst) (formal concrete : Ty) (bound : bindings.objectFree)
    (left : formal.objectFree) (right : concrete.objectFree) :
    Matches registry
      (world.matchWithin world.conforms depth bindings formal concrete) :=
  Gives.imp (@matchWithin_upholds _ _ registry.account _ _ _ _ _ _ (binds_objectFree plain) depth _ _
    bound left right) fun _ upheld => upheld.2

theorem unify_matches (plain : registry.nominal) {formal concrete : Option Ty}
    (bound : bindings.objectFree) (left : optionObjectFree formal) (right : optionObjectFree concrete) :
    Matches registry (world.unify bindings formal concrete) := by
  cases formal with
  | none => exact gives_pure bound
  | some formal =>
    refine matchWithin_matches plain _ bindings formal _ bound left ?_
    cases concrete with
    | none => rfl
    | some => exact right

end World

end Stubwise
