import Stubwise.Lattice.Registry
import Stubwise.Proofs.Ty.Ways

namespace Stubwise

open List

variable {passed : List String} {bound higher id : Nat} {t : Ty}

namespace Instances

variable {instances : Instances}

structure Grows (before after : Instances) : Prop where
  size : before.attributes.size ≤ after.attributes.size
  attrs : ∀ id < before.attributes.size, after.attrs id = before.attrs id

theorem Grows.refl (instances : Instances) : instances.Grows instances := ⟨Nat.le_refl _, fun _ _ => rfl⟩

theorem Grows.trans {before middle after : Instances} (first : before.Grows middle)
    (second : middle.Grows after) : before.Grows after where
  size := Nat.le_trans first.size second.size
  attrs id there := (second.attrs id (Nat.lt_of_lt_of_le there first.size)).trans (first.attrs id there)

theorem grows_make (base : Ty) (attrs : Table Ty) : instances.Grows (instances.make base attrs).2 where
  size := by simp [make]
  attrs id there := by
    simp only [make, Instances.attrs, Array.getD_eq_getD_getElem?, Array.getElem?_push]
    rw [if_neg (by omega)]

end Instances

/-- Whatever copies were made before it, copying ends if the condition holds, with the same result
as the wider work, which is allowed to go on for longer; and it gives no result if the condition does
not hold. -/
structure Copying.EndsIff {α : Type} (start : Instances) (work wider : Copying α)
    (condition : Prop) : Prop where
  ends : condition → ∀ now, start.Grows now → ∃ a after,
    work.run now = some (a, after) ∧ wider.run now = some (a, after) ∧ now.Grows after
  fails : ¬ condition → ∀ now, start.Grows now → work.run now = none

namespace Copying

variable {α β : Type} {start : Instances} {condition other : Prop}

theorem EndsIff.congr {work wider : Copying α} (known : EndsIff start work wider condition)
    (same : condition ↔ other) : EndsIff start work wider other :=
  propext same ▸ known

theorem endsIff_pure (a : α) : EndsIff start (pure a : Copying α) (pure a) True where
  ends _ now _ := ⟨a, now, rfl, rfl, .refl now⟩
  fails never := absurd trivial never

theorem endsIff_failure (wider : Copying α) : EndsIff start failure wider False where
  ends never := never.elim
  fails _ _ _ := rfl

theorem EndsIff.bind {work wider : Copying α} {next widerNext : α → Copying β}
    (first : EndsIff start work wider condition)
    (second : ∀ a, EndsIff start (next a) (widerNext a) other) :
    EndsIff start (work >>= next) (wider >>= widerNext) (condition ∧ other) where
  ends both now grown := by
    obtain ⟨a, middle, run, wide, grown'⟩ := first.ends both.1 now grown
    obtain ⟨b, after, run', wide', last⟩ := (second a).ends both.2 middle (grown.trans grown')
    refine ⟨b, after, ?_, ?_, grown'.trans last⟩
    · rw [StateT.run_bind, run]
      exact run'
    · rw [StateT.run_bind, wide]
      exact wide'
  fails neither now grown := by
    rw [StateT.run_bind]
    by_cases holds : condition
    · obtain ⟨a, middle, run, _, grown'⟩ := first.ends holds now grown
      rw [run]
      exact (second a).fails (fun last => neither ⟨holds, last⟩) middle (grown.trans grown')
    · rw [first.fails holds now grown]
      rfl

theorem EndsIff.into {work wider : Copying α} {make : α → β} (known : EndsIff start work wider condition) :
    EndsIff start (work >>= fun a => pure (make a)) (wider >>= fun a => pure (make a)) condition :=
  (known.bind fun a => endsIff_pure (make a)).congr (and_iff_left trivial)

theorem endsIff_mapM {γ : Type} {f wider : γ → Copying β} {condition : γ → Prop} (list : List γ)
    (each : ∀ c ∈ list, EndsIff start (f c) (wider c) (condition c)) :
    EndsIff start (list.mapM f) (list.mapM wider) (∀ c ∈ list, condition c) := by
  induction list with
  | nil => exact (endsIff_pure []).congr (by simp)
  | cons _ _ ih =>
    rw [mapM_cons, mapM_cons]
    obtain ⟨first, others⟩ := forall_mem_cons.mp each
    exact (first.bind fun _ => (ih others).into).congr forall_mem_cons.symm

end Copying

open Copying

/-- The work at a leaf ends just if the leaf passes. -/
def Leaf.Ends (start : Instances) (copy wideCopy : Nat → Ty → Copying Ty)
    (image wideImage : String → Option (Copying Ty)) (passes : Leaf → Prop) : Leaf → Prop
  | .var name bound => ∀ t, EndsIff start ((image name).getD (pure t))
      ((wideImage name).getD (pure t)) (passes (.var name bound))
  | .object id base => EndsIff start (copy id base) (wideCopy id base) (passes (.object id base))

namespace Ty

variable {start : Instances} {copy wideCopy : Nat → Ty → Copying Ty}
  {image wideImage : String → Option (Copying Ty)} (passes : Leaf → Prop)

mutual

theorem mapVarsCopying_ends :
    ∀ t : Ty, (∀ leaf ∈ t.leaves, leaf.Ends start copy wideCopy image wideImage passes) →
      EndsIff start (t.mapVarsCopying copy image)
        (t.mapVarsCopying wideCopy wideImage) (∀ leaf ∈ t.leaves, passes leaf)
  | any, _ => (endsIff_pure any).congr (by simp [leaves])
  | cls ref, _ => (endsIff_pure (cls ref)).congr (by simp [leaves])
  | literal values, _ => (endsIff_pure (literal values)).congr (by simp [leaves])
  | module name, _ => (endsIff_pure (module name)).congr (by simp [leaves])
  | var name bound, each =>
    (each (.var name bound) (mem_singleton_self _) (var name bound)).congr (by simp [leaves])
  | object id base, each =>
    EndsIff.congr (each (.object id base) (mem_singleton_self _)) (by simp [leaves])
  | app _ args, each => (rebuildAll_ends args each).into
  | tuple elements, each => (rebuildAll_ends elements each).into
  | union arms, each => (rebuildAll_ends arms each).into
  | func ⟨_, overloads, _⟩, each => (rebuildOverloads_ends overloads each).into
  | method receiver owner _ ⟨_, overloads, _⟩, each => by
    simp only [leaves, forall_mem_append] at each ⊢
    have first := mapVarsCopying_ends receiver each.1.1
    have second := mapVarsCopying_ends owner each.1.2
    have third := rebuildOverloads_ends overloads each.2
    exact (first.bind fun _ => second.bind fun _ => third.into).congr and_assoc.symm
  | type inner, each => (mapVarsCopying_ends inner each).into

theorem rebuildAll_ends :
    ∀ types : List Ty, (∀ leaf ∈ leavesAll types, leaf.Ends start copy wideCopy image wideImage passes) →
      EndsIff start (rebuildAll (copyImage copy image) types)
        (rebuildAll (copyImage wideCopy wideImage) types) (∀ leaf ∈ leavesAll types, passes leaf)
  | [], _ => (endsIff_pure []).congr (by simp [leavesAll])
  | t :: rest, each => by
    simp only [leavesAll, forall_mem_append] at each ⊢
    exact (mapVarsCopying_ends t each.1).bind fun _ => (rebuildAll_ends rest each.2).into

theorem rebuildOption_ends :
    ∀ type : Option Ty, (∀ leaf ∈ leavesOption type, leaf.Ends start copy wideCopy image wideImage passes) →
      EndsIff start (rebuildOption (copyImage copy image) type)
        (rebuildOption (copyImage wideCopy wideImage) type) (∀ leaf ∈ leavesOption type, passes leaf)
  | none, _ => (endsIff_pure none).congr (by simp [leavesOption])
  | some t, each => (mapVarsCopying_ends t each).into

theorem rebuildOverloads_ends :
    ∀ overloads : List Signature,
      (∀ leaf ∈ leavesOverloads overloads, leaf.Ends start copy wideCopy image wideImage passes) →
      EndsIff start (rebuildOverloads (copyImage copy image) overloads)
        (rebuildOverloads (copyImage wideCopy wideImage) overloads)
        (∀ leaf ∈ leavesOverloads overloads, passes leaf)
  | [], _ => (endsIff_pure []).congr (by simp [leavesOverloads])
  | ⟨params, returns, _⟩ :: rest, each => by
    simp only [leavesOverloads, forall_mem_append] at each ⊢
    have first := rebuildParams_ends params each.1.1
    have second := rebuildOption_ends returns each.1.2
    have third := rebuildOverloads_ends rest each.2
    exact (first.bind fun _ => second.bind fun _ => third.into).congr and_assoc.symm

theorem rebuildParams_ends :
    ∀ params : List Formal,
      (∀ leaf ∈ leavesParams params, leaf.Ends start copy wideCopy image wideImage passes) →
      EndsIff start (rebuildParams (copyImage copy image) params)
        (rebuildParams (copyImage wideCopy wideImage) params) (∀ leaf ∈ leavesParams params, passes leaf)
  | [], _ => (endsIff_pure []).congr (by simp [leavesParams])
  | ⟨_, declared, _, _⟩ :: rest, each => by
    simp only [leavesParams, forall_mem_append] at each ⊢
    have first := rebuildOption_ends declared each.1
    exact first.bind fun _ => (rebuildParams_ends rest each.2).into

end

end Ty

namespace Subst

variable {start : Instances} {classOf : Nat → Ty} {subst : Subst}
  {copy wider : Nat → Ty → Copying Ty} {good : Nat × Ty → Prop}

/-- What is asked of the leaves of a type: something of the names of variables, and something of
instances. -/
def Asked (fine : String → Prop) (good : Nat × Ty → Prop) : Leaf → Prop
  | .var name _ => fine name
  | .object id base => good (id, base)

/-- What is asked of a variable: its image leads to good instances only, with the variable
passed. -/
def Onward (subst : Subst) (good : Nat × Ty → Prop) (passed : List String) (name : String) : Prop :=
  ∀ image, subst.imageOf passed name = some image →
    ∀ node, subst.Reaches (name :: passed) image node → good node

theorem reaches_good_iff :
    (∀ node, subst.Reaches passed t node → good node) ↔
      ∀ leaf ∈ t.leaves, Asked (subst.Onward good passed) good leaf := by
  refine ⟨fun all leaf occurs => ?_, fun all node reaches => ?_⟩
  · cases leaf with
    | var => exact fun image found node rest => all node (.image occurs found rest)
    | object id base => exact all (id, base) (.object occurs)
  · cases reaches with
    | object occurs => exact all _ occurs
    | image occurs found rest => exact all _ occurs _ found node rest

theorem meets_object {base : Ty} {node : Nat × Ty} :
    subst.Meets (.object id base) node ↔ node = (id, base) := by
  refine ⟨fun met => ?_, fun same => same ▸ .object id base⟩
  cases met with
  | object => rfl
  | inside _ reaches =>
    cases reaches with
    | object occurs =>
      cases mem_singleton.mp occurs
      rfl
    | image leaf => exact absurd leaf (by simp [Ty.leaves])

theorem meets_type {inner : Ty} {node : Nat × Ty} :
    subst.Meets (.type inner) node ↔ subst.Meets inner node := by
  refine ⟨fun met => ?_, .type⟩
  cases met with
  | type met => exact met
  | inside filled reaches =>
    cases reaches with
    | object occurs => exact .inside filled (.object occurs)
    | image leaf found rest => exact .inside filled (.image leaf found rest)

section Copies

variable (coherent : start.Coherent classOf subst) (copies : ∀ id < start.attributes.size,
    EndsIff start (copy id (classOf id)) (wider id (classOf id)) (good (id, classOf id)))
include coherent copies

/-- Each step into an image passes one variable more, so that there are enough steps. -/
theorem copyWithin_ends {steps : Nat} (passes : subst.Passes passed)
    (enough : subst.length ≤ passed.length + steps) (own : start.Owns classOf t) :
    EndsIff start (subst.copyWithin copy steps passed t) (subst.copyWithin wider steps passed t)
      (∀ node, subst.Reaches passed t node → good node) := by
  have object {t : Ty} (own : start.Owns classOf t) {id : Nat} {base : Ty}
      (occurs : .object id base ∈ t.leaves) :
      EndsIff start (copy id base) (wider id base) (good (id, base)) := by
    obtain ⟨there, rfl⟩ := own id base occurs
    exact copies id there
  induction steps generalizing passed t with
  | zero =>
    refine (Ty.mapVarsCopying_ends (Asked (subst.Onward good passed) good) t ?_).congr reaches_good_iff.symm
    intro leaf occurs
    cases leaf with
    | var =>
      refine fun t => (endsIff_pure t).congr ⟨fun _ image found => ?_, fun _ => trivial⟩
      have more := (passes.cons found).length_le
      rw [length_cons] at more
      omega
    | object => exact object own occurs
  | succ _ ih =>
    refine (Ty.mapVarsCopying_ends (Asked (subst.Onward good passed) good) t ?_).congr reaches_good_iff.symm
    intro leaf occurs
    cases leaf with
    | var name =>
      intro t
      show EndsIff start (((subst.imageOf passed name).map _).getD (pure t))
        (((subst.imageOf passed name).map _).getD (pure t)) (subst.Onward good passed name)
      unfold Onward
      cases found : subst.imageOf passed name with
      | none => exact (endsIff_pure t).congr (by simp)
      | some =>
        have inner := ih (passes.cons found) (by rw [length_cons]; omega)
          (coherent.images _ (mem_of_imageOf found))
        exact inner.congr (by simp)
    | object => exact object own occurs

theorem copyType_ends :
    ∀ t : Ty, start.Owns classOf t → EndsIff start (subst.copyType copy t) (subst.copyType wider t)
        (∀ node, subst.Meets t node → good node)
  | .object id base, own => by
    obtain ⟨there, rfl⟩ := own id base (mem_singleton_self _)
    exact (copies id there).congr (by simp [meets_object])
  | .type inner, own => (copyType_ends inner own).into.congr (by simp [meets_type])
  | .any, own | .var _ _, own | .cls _, own | .app _ _, own | .tuple _, own | .union _, own
  | .literal _, own | .func _, own | .method _ _ _ _, own | .module _, own =>
    plain _ own (by rintro node ⟨⟩; contradiction)
where
  plain (t : Ty) (own : start.Owns classOf t) (closed : ∀ node, ¬ Meets [] t node) :
      EndsIff start (if subst.isEmpty then pure t else subst.copyWithin copy subst.length [] t)
        (if subst.isEmpty then pure t else subst.copyWithin wider subst.length [] t)
        (∀ node, subst.Meets t node → good node) := by
    cases subst with
    | nil => exact (endsIff_pure t).congr (by simp [closed])
    | cons =>
      have ends := copyWithin_ends coherent copies ⟨nodup_nil, nil_subset _⟩ (Nat.le_add_left _ _) own
      exact ends.congr (by simp only [meets_iff (cons_ne_nil _ _)])

theorem copyAttributes_ends (there : id < start.attributes.size) :
    EndsIff start (get >>= fun now : Instances => (now.attrs id).mapM fun (name, t) =>
        subst.copyType copy t >>= fun t => pure (name, t))
      (get >>= fun now : Instances => (now.attrs id).mapM fun (name, t) =>
        subst.copyType wider t >>= fun t => pure (name, t))
      (∀ entry ∈ start.attrs id, ∀ node, subst.Meets entry.2 node → good node) := by
  have each : EndsIff start ((start.attrs id).mapM fun (name, t) =>
        subst.copyType copy t >>= fun t => pure (name, t))
      ((start.attrs id).mapM fun (name, t) =>
        subst.copyType wider t >>= fun t => pure (name, t)) _ :=
    endsIff_mapM (start.attrs id) fun entry listed =>
      (copyType_ends coherent copies entry.2 (coherent.attributes id entry listed)).into
  refine ⟨fun all now grown => ?_, fun none now grown => ?_⟩
  · have run := each.ends all now grown
    rw [← grown.attrs id there] at run
    exact run
  · have run := each.fails none now grown
    rw [← grown.attrs id there] at run
    exact run

end Copies

/-- Copying an instance ends just if every way on from it is shorter than the bound. With a higher
bound the copy is the same. -/
theorem copyInstance_ends (coherent : start.Coherent classOf subst)
    (within : bound ≤ higher) (there : id < start.attributes.size) :
    EndsIff start (subst.copyInstance bound id (classOf id)) (subst.copyInstance higher id (classOf id))
      (start.EndsWithin subst bound (id, classOf id)) := by
  induction bound generalizing id higher with
  | zero => exact endsIff_failure _
  | succ bound ih =>
    obtain ⟨higher, rfl⟩ := Nat.exists_eq_add_of_lt within
    have copies (id : Nat) (there : id < start.attributes.size) := ih (Nat.le_add_right bound higher) there
    have base := copyType_ends coherent copies (classOf id) (coherent.classes id there)
    have attrs := copyAttributes_ends coherent copies there
    have made (base : Ty) (attrs : Table Ty) : EndsIff start
        (modifyGet (·.make base attrs) : Copying Ty) (modifyGet (·.make base attrs)) True :=
      ⟨fun _ now _ => ⟨_, _, rfl, rfl, Instances.grows_make base attrs⟩,
        fun never => absurd trivial never⟩
    have whole := base.bind fun base => attrs.bind fun attrs => made base attrs
    refine whole.congr ?_
    simp only [and_true, Instances.EndsWithin, Instances.Leads, or_imp, forall_and,
      forall_exists_index, and_imp]
    exact and_congr_right fun _ => ⟨fun all next entry listed => all entry listed next,
      fun all entry listed next => all next entry listed⟩

end Subst

namespace Instances

variable {instances : Instances} {classOf : Nat → Ty} {subst : Subst} {t : Ty}

section

variable (coherent : instances.Coherent classOf subst)
include coherent

theorem copy_ends (own : instances.Owns classOf t) (within : bound ≤ higher) :
    EndsIff instances (subst.copyType (subst.copyInstance bound) t)
      (subst.copyType (subst.copyInstance higher) t)
      (∀ node, subst.Meets t node → instances.EndsWithin subst bound node) :=
  Subst.copyType_ends coherent (fun _ there => Subst.copyInstance_ends coherent within there) t own

theorem exists_copy (own : instances.Owns classOf t)
    (bounded : ∀ node, subst.Meets t node → instances.Bounded subst node) :
    ∃ result, ∀ bound, instances.attributes.size ≤ bound →
      (subst.copyType (subst.copyInstance bound) t).run instances = some result := by
  have short (node : Nat × Ty) (met : subst.Meets t node) :
      instances.EndsWithin subst instances.attributes.size node := by
    obtain ⟨there, same⟩ := coherent.owns_met own met
    exact (bounded node met).endsWithin coherent there same (Nat.le_refl _)
  have ends := copy_ends coherent own (Nat.le_refl instances.attributes.size)
  obtain ⟨a, after, run, _⟩ := ends.ends short instances (.refl instances)
  refine ⟨(a, after), fun bound enough => ?_⟩
  obtain ⟨b, last, same, wide, _⟩ := (copy_ends coherent own enough).ends short instances (.refl instances)
  exact wide.trans (same.symm.trans run)

theorem no_copy (own : instances.Owns classOf t)
    (endless : ¬ ∀ node, subst.Meets t node → instances.Bounded subst node) (bound : Nat) :
    (subst.copyType (subst.copyInstance bound) t).run instances = none :=
  (copy_ends coherent own (Nat.le_refl bound)).fails
    (fun short => endless fun node met => .of_endsWithin (short node met)) instances
    (.refl instances)

end

end Instances

namespace Registry

variable {registry : Registry} {classOf : Nat → Ty} {subst : Subst} {t : Ty}

theorem apply_run_of_objects (objects : (t.objectFree && subst.objectFree) = false) :
    (world.apply subst t).run registry = (registry.instances.apply subst t).elim (.error .endless)
      fun copied => .ok (copied.1, { registry with instances := copied.2 }) := by
  have now : (world.instances).run registry = .ok (registry.instances, registry) := rfl
  unfold World.apply
  rw [objects, if_neg Bool.false_ne_true, StateT.run_bind, now]
  dsimp only [bind, Except.bind]
  cases registry.instances.apply subst t <;> rfl

theorem not_meets_of_objectFree (free : t.objectFree) (images : subst.objectFree)
    (node : Nat × Ty) : ¬ subst.Meets t node := by
  intro met
  induction met with
  | object => cases free
  | type _ ih => exact ih free
  | inside _ reaches => exact Subst.not_reaches_of_objectFree images free reaches

/-- Applying a substitution, however cyclic it is, ends just if no way from the type through images
and instances is endless. It gives the same if more instances inside each other are allowed than
there are. -/
theorem substitution_ends_iff (coherent : registry.instances.Coherent classOf subst)
    (own : registry.instances.Owns classOf t) :
    ((∃ result, (world.apply subst t).run registry = .ok result) ↔
      ∀ node, subst.Meets t node → registry.instances.Bounded subst node) ∧
    ∀ bound, registry.instances.attributes.size ≤ bound →
      (subst.copyType (subst.copyInstance bound) t).run registry.instances =
        registry.instances.apply subst t := by
  constructor
  · cases objects : t.objectFree && subst.objectFree with
    | true =>
      obtain ⟨free, images⟩ := Bool.and_eq_true_iff.mp objects
      have ended : (world.apply subst t).run registry = .ok (subst.apply t, registry) := by
        unfold World.apply
        rw [objects]
        rfl
      exact ⟨fun _ node met => absurd met (not_meets_of_objectFree free images node), fun _ => ⟨_, ended⟩⟩
    | false =>
      refine ⟨fun ⟨result, ended⟩ => ?_, fun bounded => ?_⟩
      · by_contra endless
        rw [apply_run_of_objects objects, Instances.apply,
          Instances.no_copy coherent own endless] at ended
        cases ended
      · obtain ⟨copied, made⟩ := Instances.exists_copy coherent own bounded
        rw [apply_run_of_objects objects, Instances.apply, made _ (Nat.le_refl _)]
        exact ⟨_, rfl⟩
  · intro bound enough
    by_cases bounded : ∀ node, subst.Meets t node → registry.instances.Bounded subst node
    · obtain ⟨result, copied⟩ := Instances.exists_copy coherent own bounded
      exact (copied bound enough).trans (copied _ (Nat.le_refl _)).symm
    · exact (Instances.no_copy coherent own bounded bound).trans
        (Instances.no_copy coherent own bounded _).symm

/-- An instance of a class without variables, with a variable as its attribute. -/
def looped : Registry where
  instances := { attributes := #[[("x", .var "T" none)]] }

/-- The only instance of a registry, as a type. -/
abbrev onlyInstance : Ty := .object 0 (.builtin "int")

theorem looped_owns (t : Ty)
    (leaves : ∀ id base, .object id base ∈ t.leaves → .object id base = onlyInstance) :
    looped.instances.Owns (fun _ => .builtin "int") t := by
  intro id base occurs
  obtain ⟨rfl, rfl⟩ : id = 0 ∧ base = .builtin "int" := by simpa using leaves id base occurs
  exact ⟨by decide, rfl⟩

theorem looped_coherent {image : Ty} (own : looped.instances.Owns (fun _ => .builtin "int") image) :
    looped.instances.Coherent (fun _ => .builtin "int") [("T", image)] := by
  refine ⟨fun _ _ => looped_owns _ (by simp [Ty.builtin, Ty.leaves]), fun id entry listed => ?_,
    forall_mem_singleton.mpr own⟩
  rcases id with _ | id
  · obtain rfl : entry = ("x", .var "T" none) := mem_singleton.mp listed
    exact looped_owns _ (by simp [Ty.leaves])
  · exact absurd listed not_mem_nil

/-- The variable is replaced in the attribute of an instance, with a type that mentions it. -/
theorem substitution_ends_iff_looped :
    let subst : Subst := [("T", .tuple [.var "T" none])]
    looped.instances.Coherent (fun _ => .builtin "int") subst ∧
      ∀ node, subst.Meets (.tuple [.var "T" none, onlyInstance]) node →
        looped.instances.Bounded subst node := by
  have coherent := looped_coherent (looped_owns (.tuple [.var "T" none])
    (by simp [Ty.leaves, Ty.leavesAll]))
  have own := looped_owns (.tuple [.var "T" none, onlyInstance]) (by simp [Ty.leaves, Ty.leavesAll])
  exact ⟨coherent, (substitution_ends_iff coherent own).1.mp ⟨_, rfl⟩⟩

/-- The instance in the place of the variable: its attribute is the variable again, and there the
variable does not count as passed. However many instances inside each other are allowed, there is no
result. -/
theorem substitution_goes_round :
    (world.apply [("T", onlyInstance)] (.var "T" none)).run looped = .error .endless ∧
      ∀ bound, (Subst.copyType [("T", onlyInstance)]
        (Subst.copyInstance [("T", onlyInstance)] bound) (.var "T" none)).run
          looped.instances = none := by
  let subst : Subst := [("T", onlyInstance)]
  have met : subst.Meets (.var "T" none) (0, .builtin "int") :=
    .inside (cons_ne_nil _ _) (.image (mem_singleton_self _) rfl (.object (mem_singleton_self _)))
  have again : looped.instances.Leads subst (0, .builtin "int") (0, .builtin "int") :=
    .inr ⟨("x", .var "T" none), mem_singleton_self _, met⟩
  have never := Instances.no_copy (looped_coherent (looped_owns onlyInstance (by simp [Ty.leaves])))
    (looped_owns (.var "T" none) (by simp [Ty.leaves]))
    fun bounded => Instances.not_bounded_of_cycle (.single again) (bounded _ met)
  refine ⟨?_, never⟩
  rfl

end Registry

end Stubwise
