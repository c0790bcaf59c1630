import Stubwise.Proofs.Lattice.Instantiation
import Stubwise.Proofs.Lattice.NormalForm
import Stubwise.Proofs.Ty.Copying

namespace Stubwise

open List

variable {ref : ClassRef} {instances : Instances} {after stack visited : List String} {args : List Ty}
  {name other : String} {copied : Ty}

namespace Ty

def named? : Ty → Option ClassRef
  | cls ref | app ref _ => some ref
  | _ => none

variable {t : Ty} {ref : ClassRef}

theorem nominal?_of_named (named : t.named? = some ref) : ∃ args, t.nominal? = some (ref, args) := by
  cases t with
  | cls =>
    cases named
    exact ⟨[], rfl⟩
  | app _ args =>
    cases named
    exact ⟨args, rfl⟩
  | _ => cases named

theorem mapVars_named (image : String → Option Ty) (named : t.named? = some ref) :
    (t.mapVars image).named? = some ref := by
  cases t with
  | cls _ | app _ _ => exact named
  | _ => cases named

theorem mapVarsCopying_named {copy : Nat → Ty → Copying Ty} {image : String → Option (Copying Ty)}
    {after : Instances} (named : t.named? = some ref)
    (ran : (t.mapVarsCopying copy image).run instances = some (copied, after)) :
    copied.named? = some ref := by
  cases t with
  | cls =>
    cases ran
    exact named
  | app _ =>
    obtain ⟨result, _, same⟩ := Option.bind_eq_some_iff.mp ran
    cases same
    exact named
  | _ => cases named

end Ty

namespace Subst

variable {subst : Subst} {t : Ty} {ref : ClassRef}

theorem apply_named (subst : Subst) (named : t.named? = some ref) : (subst.apply t).named? = some ref := by
  rw [apply]
  split
  · exact named
  · cases subst.length <;> exact Ty.mapVars_named _ named

theorem copyType_named {copy : Nat → Ty → Copying Ty} {after : Instances} (named : t.named? = some ref)
    (ran : (subst.copyType copy t).run instances = some (copied, after)) :
    copied.named? = some ref := by
  have within : (if subst.isEmpty then return t else
      subst.copyWithin copy subst.length [] t : Copying Ty).run instances = some (copied, after) := by
    cases t with
    | cls _ | app _ _ => exact ran
    | _ => cases named
  split at within
  · cases within
    exact named
  · cases steps : subst.length <;> rw [steps] at within <;>
      exact Ty.mapVarsCopying_named named within

end Subst

namespace Registry

variable {α β : Type} {registry : Registry}

/-- A registered class, by its name, has a base of the other name. -/
def Extends (registry : Registry) (name other : String) : Prop :=
  ∃ declaration, registry.classes.get? name = some declaration ∧
    ∃ base ∈ declaration.cls.bases, ∃ ref, base.named? = some ref ∧ ref.qualName = other

theorem extends_iff {cls : Class}
    (found : registry.lookup ref = .ok cls) : registry.Extends ref.qualName other ↔
      ∃ base ∈ cls.bases, ∃ ref, base.named? = some ref ∧ ref.qualName = other := by
  rw [lookup] at found
  split at found
  · rename_i declaration known
    cases found
    simp [Extends, known]
  · cases found

theorem not_extends {fault : Fault}
    (absent : registry.lookup ref = .error fault) : ¬registry.Extends ref.qualName other := by
  rw [lookup] at absent
  split at absent
  · cases absent
  · rename_i unknown
    simp [Extends, unknown]

theorem dropLast_subset_of_chain {path : List String} (chain : path.IsChain registry.Extends) :
    path.dropLast ⊆ registry.classes.map (·.1) := by
  induction path with
  | nil => exact nil_subset _
  | cons _ rest ih =>
    cases rest with
    | nil => exact nil_subset _
    | cons =>
      obtain ⟨⟨declaration, known, _⟩, later⟩ := isChain_cons_cons.mp chain
      exact cons_subset.mpr ⟨mem_map.mpr ⟨_, Table.mem_of_get? known, rfl⟩, ih later⟩

/-- What runs on the classes of a registry come to has the property, and the classes stay. -/
abbrev Explores (registry : Registry) (post : α → Prop) (run : Run α) : Prop :=
  Leads (·.classes = registry.classes) post run

theorem lookup_explores (ref : ClassRef) :
    Explores registry (· = registry.lookup ref) (world.lookup ref) := by
  intro before value after same ran
  cases ran
  exact ⟨same, by rw [lookup, lookup, same]⟩

end Registry

namespace World

open Registry

variable {registry : Registry} {target ref : ClassRef} {subst : Subst} {base : Ty}

theorem apply_explores (named : base.named? = some ref) :
    Explores registry (fun t => Gave (world.apply subst base) t ∧ t.named? = some ref)
      (world.apply subst base) := by
  intro before t after same ran
  have gave : Gave (world.apply subst base) t := ⟨before, after, ran⟩
  cases free : base.objectFree && subst.objectFree with
  | true =>
    rw [apply, free, if_pos rfl] at ran
    cases ran
    exact ⟨same, gave, subst.apply_named named⟩
  | false =>
    rw [apply_run_of_objects free] at ran
    cases copied : before.instances.apply subst base <;> rw [copied] at ran <;> cases ran
    exact ⟨same, gave, Subst.copyType_named named copied⟩

/-- What a base comes to under the arguments of its class: a class with arguments. Where nothing in
the base is replaced twice, all its variables are replaced at once. -/
structure Instantiates (subst : Subst) (base : Ty) (next : ClassRef) (args : List Ty) : Prop where
  named : base.named? = some next
  applied : ∃ t, Gave (world.apply subst base) t ∧ t.nominal? = some (next, args)
  atOnce : base.Regular → (∀ entry ∈ subst, entry.2.Regular) →
    (∀ name bound, .var name bound ∈ base.leaves → subst.Once name bound) →
      (base.mapVars subst.get?).nominal? = some (next, args)

theorem instantiates {t : Ty} (named : base.named? = some ref)
    (gave : Gave (world.apply subst base) t) (counted : t.nominal? = some (ref, args)) :
    Instantiates subst base ref args where
  named := named
  applied := ⟨t, gave, counted⟩
  atOnce regular images once := by
    obtain ⟨before, after, ran⟩ := gave
    have imagesFree : subst.objectFree = true :=
      all_eq_true.mpr fun entry listed => (images entry listed).free
    rw [apply_run imagesFree regular.free, Subst.apply_eq_mapVars regular.wellFormed
      (fun entry listed => (images entry listed).wellFormed) once] at ran
    cases ran
    exact counted

/-- A way along bases from a class with its arguments to the target with the arguments found. -/
inductive Arrives (registry : Registry) (target : ClassRef) : ClassRef → List Ty → List Ty → Prop
  | here {ref : ClassRef} {args : List Ty} (same : ref.same target) :
      Arrives registry target ref args args
  | step {ref next : ClassRef} {cls : Class} {base : Ty} {args nextArgs found : List Ty}
      (known : registry.lookup ref = .ok cls) (listed : base ∈ cls.bases)
      (made : Instantiates (cls.subst args) base next nextArgs)
      (rest : Arrives registry target next nextArgs found) : Arrives registry target ref args found

theorem Arrives.reaches {found : List Ty} (arrives : Arrives registry target ref args found) :
    Relation.ReflTransGen registry.Extends ref.qualName target.qualName := by
  induction arrives with
  | here same => rw [eq_of_beq same]
  | step known listed made _ ih =>
    exact .head ((extends_iff known).mpr ⟨_, listed, _, made.named, rfl⟩) ih

/-- The classes visited since are done: none is the target, and their bases are visited too. -/
structure Swept (registry : Registry) (target : ClassRef) (before after : List String) : Prop where
  grows : before ⊆ after
  done : ∀ name ∈ after, name ∉ before →
    name ≠ target.qualName ∧ ∀ other, registry.Extends name other → other ∈ after

theorem swept_refl (visited : List String) : Swept registry target visited visited :=
  ⟨List.Subset.refl _, fun _ listed unlisted => absurd listed unlisted⟩

theorem Swept.trans {before middle : List String}
    (first : Swept registry target before middle) (second : Swept registry target middle after) :
    Swept registry target before after := by
  refine ⟨fun _ listed => second.grows (first.grows listed), fun name listed unlisted => ?_⟩
  by_cases known : name ∈ middle
  · obtain ⟨other, bases⟩ := first.done name known unlisted
    exact ⟨other, fun base below => second.grows (bases base below)⟩
  · exact second.done name listed known

/-- What a visit comes to: arguments that were come to along bases, or more classes that are done,
the one visited among them. -/
structure Visit (registry : Registry) (target ref : ClassRef) (args : List Ty)
    (visited : List String) (result : Option (List Ty) × List String) : Prop where
  found : ∀ found, result.1 = some found → target.same .object = false →
    Arrives registry target ref args found
  missed : result.1 = none → target.same .object = false ∧ ref.qualName ≠ target.qualName ∧
    ref.qualName ∈ result.2 ∧ Swept registry target visited result.2

structure Search (registry : Registry) (target : ClassRef) (subst : Subst) (bases : List Ty)
    (visited : List String) (result : Option (List Ty) × List String) : Prop where
  found : ∀ found, result.1 = some found → target.same .object = false →
    ∃ base ∈ bases, ∃ next args, Instantiates subst base next args ∧
      Arrives registry target next args found
  missed : result.1 = none → Swept registry target visited result.2 ∧
    ∀ base ∈ bases, ∀ next, base.named? = some next → next.qualName ∈ result.2

/-- The search through the bases, from what the visits to them come to. -/
theorem searchBases_explores {bases : List Ty}
    {visit : ClassRef → List Ty → List String → Run (Option (List Ty) × List String)}
    (named : ∀ base ∈ bases, ∃ next, base.named? = some next)
    (visits : ∀ base ∈ bases, ∀ next, base.named? = some next → ∀ args {visited},
      stack ⊆ visited → Explores registry (Visit registry target next args visited) (visit next args visited))
    (below : stack ⊆ visited) :
    Explores registry (Search registry target subst bases visited)
      (world.searchBases visit subst bases visited) := by
  induction bases generalizing visited with
  | nil =>
    refine leads_pure ⟨fun _ found => ?_, fun _ => ⟨swept_refl visited, fun base listed => ?_⟩⟩
    · cases found
    · cases listed
  | cons base rest ih =>
    obtain ⟨next, here⟩ := named base mem_cons_self
    refine (apply_explores here).bind fun t known => ?_
    obtain ⟨gave, stays⟩ := known
    obtain ⟨args, counted⟩ := Ty.nominal?_of_named stays
    rw [counted]
    refine (visits base mem_cons_self next here args below).bind fun result visit => ?_
    obtain ⟨_ | found, after⟩ := result
    · obtain ⟨_, _, there, swept⟩ := visit.missed rfl
      refine (ih (fun base listed => named base (mem_cons_of_mem _ listed))
        (fun base listed => visits base (mem_cons_of_mem _ listed))
        (List.Subset.trans below swept.grows)).imp fun result search => ⟨?_, fun none => ?_⟩
      · intro found some other
        obtain ⟨base, listed, way⟩ := search.found found some other
        exact ⟨base, mem_cons_of_mem _ listed, way⟩
      · obtain ⟨later, others⟩ := search.missed none
        refine ⟨swept.trans later, forall_mem_cons.mpr ⟨fun next' same => ?_, others⟩⟩
        cases here.symm.trans same
        exact later.grows there
    · refine leads_pure ⟨fun args' same other => ?_, fun none => ?_⟩
      · cases same
        exact ⟨base, mem_cons_self, next, args, instantiates here gave counted, visit.found _ rfl other⟩
      · cases none

/-- Every base of a registered class names a class, and no chain of different classes along bases
is longer than the search goes down. -/
structure Searchable (registry : Registry) : Prop where
  named : ∀ {ref cls}, registry.lookup ref = .ok cls → ∀ base ∈ cls.bases,
    ∃ next, base.named? = some next
  short : ∀ path : List String, path.Nodup → path.IsChain registry.Extends →
    path.length ≤ maxBaseDepth + 1

theorem Searchable.mem_stack (searchable : Searchable registry) (distinct : stack.Nodup)
    (chain : (name :: stack).IsChain (flip registry.Extends))
    (deep : stack.length = maxBaseDepth + 1) : name ∈ stack := by
  by_contra fresh
  have long := searchable.short (name :: stack).reverse (nodup_reverse.mpr (nodup_cons.mpr ⟨fresh, distinct⟩))
    (isChain_reverse.mpr chain)
  rw [length_reverse, length_cons, deep] at long
  omega

theorem Swept.visit (other : target.same .object = false) (differs : ref.qualName ≠ target.qualName)
    (swept : Swept registry target (ref.qualName :: visited) after)
    (bases : ∀ other, registry.Extends ref.qualName other → other ∈ after) :
    Visit registry target ref args visited (none, after) where
  found _ same := by cases same
  missed := by
    refine fun _ => ⟨other, differs, swept.grows mem_cons_self,
      fun _ listed => swept.grows (mem_cons_of_mem _ listed), fun name listed unlisted => ?_⟩
    by_cases here : name = ref.qualName
    · subst here
      exact ⟨differs, bases⟩
    · exact swept.done name listed (not_mem_cons_of_ne_of_not_mem here unlisted)

theorem explores_visit {run : Run (Option (List Ty) × List String)}
    (further : target.same .object = false → ref.qualName ≠ target.qualName →
      Explores registry (Visit registry target ref args visited) run) :
    Explores registry (Visit registry target ref args visited)
      (if ref.same target then return (some args, visited)
      else if target.same .object then return (some [], visited) else run) := by
  split
  · rename_i same
    refine leads_pure ⟨fun found given _ => ?_, fun none => ?_⟩
    · cases given
      exact .here same
    · cases none
  rename_i differs
  split
  · rename_i object
    refine leads_pure ⟨fun _ _ other => ?_, fun none => ?_⟩
    · rw [object] at other
      cases other
    · cases none
  · rename_i other
    exact further (Bool.not_eq_true _ ▸ other) fun same => differs (beq_iff_eq.mpr same)

theorem explores_visited (other : target.same .object = false) (differs : ref.qualName ≠ target.qualName)
    (listed : ref.qualName ∈ visited) :
    Explores registry (Visit registry target ref args visited) (return (none, visited)) := by
  refine leads_pure ⟨fun _ none => ?_, fun _ => ⟨other, differs, listed, swept_refl visited⟩⟩
  cases none

/-- The classes on the way down, the last one first, are different and visited. Since the chain of
them is not too long, the search gives up at the limit only on a class that was visited. -/
theorem upcastWithin_explores (searchable : Searchable registry) (depth : Nat) (distinct : stack.Nodup)
    (chain : (ref.qualName :: stack).IsChain (flip registry.Extends))
    (deep : stack.length + depth = maxBaseDepth + 1) (below : stack ⊆ visited) :
    Explores registry (Visit registry target ref args visited)
      (world.upcastWithin target depth ref args visited) := by
  induction depth generalizing ref args stack visited with
  | zero =>
    refine explores_visit fun other differs => ?_
    exact explores_visited other differs (below (searchable.mem_stack distinct chain deep))
  | succ depth ih =>
    refine explores_visit fun other differs => ?_
    split
    · rename_i listed
      exact explores_visited other differs (contains_iff_mem.mp listed)
    rename_i fresh
    have unlisted : ref.qualName ∉ visited := fun listed => fresh (contains_iff_mem.mpr listed)
    refine (lookup_explores ref).bind fun answer known => ?_
    split
    · exact leads_pure ((swept_refl _).visit other differs fun _ extended =>
        absurd extended (not_extends known.symm))
    · rename_i cls
      have distinct' : (ref.qualName :: stack).Nodup :=
        nodup_cons.mpr ⟨fun listed => unlisted (below listed), distinct⟩
      have visits (base : Ty) (listed : base ∈ cls.bases) (next : ClassRef)
          (named : base.named? = some next) (args : List Ty) {visited : List String}
          (below : ref.qualName :: stack ⊆ visited) :
          Explores registry (Visit registry target next args visited)
            (world.upcastWithin target depth next args visited) := by
        have extended := (extends_iff known.symm).mpr ⟨base, listed, next, named, rfl⟩
        exact ih distinct' (chain.cons_cons extended) (by rw [length_cons]; omega) below
      refine (searchBases_explores (searchable.named known.symm) visits
        (cons_subset_cons _ below)).imp fun result search => ?_
      obtain ⟨_ | found, after⟩ := result
      · obtain ⟨swept, bases⟩ := search.missed rfl
        refine swept.visit other differs fun name extended => ?_
        obtain ⟨base, listed, next, named, rfl⟩ := (extends_iff known.symm).mp extended
        exact bases base listed next named
      · refine ⟨fun args' given other => ?_, fun none => ?_⟩
        · obtain ⟨base, listed, next, nextArgs, made, arrives⟩ := search.found args' given other
          exact .step known.symm listed made arrives
        · cases none

theorem Swept.mem_of_reaches (swept : Swept registry target [] after) (listed : name ∈ after)
    (reaches : Relation.ReflTransGen registry.Extends name other) : other ∈ after := by
  induction reaches with
  | refl => exact listed
  | tail _ extended ih => exact (swept.done _ ih not_mem_nil).2 _ extended

/-- The search through bases, cycles among them or not, succeeds for the classes that can be reached
along bases and for `object`, and for no others. The arguments that it gives are made by
instantiating the bases on a way to the target. Without instances it always comes to an end. -/
theorem base_search_exact (searchable : Searchable registry) (con target : ClassRef) (args : List Ty) :
    (∀ found after, (world.upcastClass con args target).run registry = .ok (found, after) →
      (found.isSome = true ↔ target.same .object = true ∨
        Relation.ReflTransGen registry.Extends con.qualName target.qualName) ∧
      (target.same .object = false → ∀ given ∈ found, Arrives registry target con args given)) ∧
    ((∀ {ref cls}, registry.lookup ref = .ok cls → Ty.allObjectFree cls.bases = true) →
      Ty.allObjectFree args = true →
        ∃ found, (world.upcastClass con args target).run registry =
          .ok (found, registry)) := by
  refine ⟨fun found after ran => ?_, fun basesFree free => ?_⟩
  · have visits : Explores registry (Visit registry target con args [])
        (world.upcastWithin target (maxBaseDepth + 1) con args []) :=
      upcastWithin_explores searchable _ nodup_nil (isChain_singleton _) (Nat.zero_add _)
        (List.Subset.refl _)
    have search : Explores registry (fun found => ∃ visited, Visit registry target con args []
        (found, visited)) (world.upcastClass con args target) :=
      visits.bind fun result visit => leads_pure ⟨result.2, visit⟩
    obtain ⟨_, visited, visit⟩ := search registry found after rfl ran
    refine ⟨⟨fun some => ?_, fun reached => ?_⟩, fun other given same => visit.found given same other⟩
    · obtain ⟨given, same⟩ := Option.isSome_iff_exists.mp some
      cases other : target.same .object with
      | true => exact .inl rfl
      | false => exact .inr (visit.found given same other).reaches
    · cases found with
      | some => rfl
      | none =>
        obtain ⟨other, _, listed, swept⟩ := visit.missed rfl
        rcases reached with object | reaches
        · rw [object] at other
          cases other
        · have there := swept.mem_of_reaches listed reaches
          exact absurd rfl (swept.done _ there not_mem_nil).1
  · obtain ⟨found, _, ran⟩ := upcastClass_gives basesFree con target free
    exact ⟨found, ran⟩

theorem searchable_of_few
    (named : ∀ entry ∈ registry.classes, ∀ base ∈ entry.2.cls.bases, base.named?.isSome = true)
    (few : registry.classes.length ≤ maxBaseDepth) : Searchable registry where
  named found base listed := by
    rw [Registry.lookup] at found
    split at found
    · rename_i known
      cases found
      exact Option.isSome_iff_exists.mp (named _ (Table.mem_of_get? known) base listed)
    · cases found
  short path distinct chain := by
    have short := (distinct.sublist (dropLast_sublist path)).length_le_of_subset
      (dropLast_subset_of_chain chain)
    rw [length_dropLast, length_map] at short
    omega

end World

namespace Registry

/-- `B[K, V]` below `A[V]`, `C[T]` below `D[T]` and `B[T]`, and `D[T]` below `C[T]`. -/
def cyclic : Registry :=
  [generic "A" ["X"] [], generic "B" ["K", "V"] [applied "A" ["V"]],
    generic "C" ["T"] [applied "D" ["T"], applied "B" ["T"]],
    generic "D" ["T"] [applied "C" ["T"]]].foldl define {}

/-- From `D[int]` the search comes to `A` round a cycle, with the argument that is missing for
`B`. -/
theorem base_search_exact_round_cycle :
    (world.upcastClass (inModule "D") [.builtin "int"] (inModule "A")).run cyclic =
        .ok (some [.any], cyclic) ∧
      Relation.ReflTransGen cyclic.Extends "m.D" "m.A" ∧
      World.Arrives cyclic (inModule "A") (inModule "D") [.builtin "int"] [.any] := by
  have ran : (world.upcastClass (inModule "D") [.builtin "int"] (inModule "A")).run cyclic =
    .ok (some [.any], cyclic) := rfl
  have searchable : World.Searchable cyclic := World.searchable_of_few (by decide) (by decide)
  obtain ⟨reached, arrives⟩ :=
    (World.base_search_exact searchable (inModule "D") (inModule "A") [.builtin "int"]).1 _ _ ran
  refine ⟨ran, (reached.mp rfl).resolve_left (by decide), arrives (by decide) _ rfl⟩

def direct : Registry :=
  [generic "B" ["K", "V"] [], generic "D" ["K", "V"] [applied "B" ["K", "V"]]].foldl define {}

/-- Arguments that are exchanged parameters are exchanged once more: seen as a `B`, `D[V, K]` has
the arguments `K` and `V`, where instantiating the base at once gives `B[V, K]`. -/
theorem exchanged_base_instantiated_again :
    (world.upcastClass (inModule "D") [.var "V" none, .var "K" none] (inModule "B")).run direct =
        .ok (some [.var "K" none, .var "V" none], direct) ∧
      (applied "B" ["K", "V"]).mapVars
          (Class.subst (generic "D" ["K", "V"] []).cls [.var "V" none, .var "K" none]).get? =
        applied "B" ["V", "K"] :=
  ⟨rfl, rfl⟩

def link (place : Nat) : ClassRef :=
  { module := "", name := String.singleton (Char.ofNat place) }

/-- One class above another, as many as the search goes through, and all above `object`. -/
def tower : Registry where
  classes := ("builtins.object", { cls := { ref := .object, bases := [.cls (link 0)] } }) ::
    ("m.A", generic "A" [] []) ::
    ((link 127).qualName, { cls := { ref := link 127 }, members := [("deep", .strType)] }) ::
    (range 127).map fun place => ((link place).qualName,
      { cls := { ref := link place, bases := [.cls (link (place + 1))] } })

section Walks

variable {registry : Registry} {next : ClassRef} {depth place : Nat}

theorem gives_eq {α : Type} {run : Run α} {value : α}
    (ran : run.run registry = .ok (value, registry)) : Gives registry (· = value) run :=
  ⟨value, rfl, ran⟩

theorem namesWithin_gives (known : registry.lookup ref = .ok { ref, bases := [.cls next] })
    (fresh : ref.qualName ∉ visited)
    (visit : Gives registry (name ∈ ·.1) (world.namesWithin depth next (ref.qualName :: visited))) :
    Gives registry (name ∈ ·.1) (world.namesWithin (depth + 1) ref visited) := by
  rw [World.namesWithin, if_neg (by simpa using fresh)]
  have looked : Gives registry (· = _) (world.lookup ref) := ⟨_, known, rfl⟩
  refine looked.bind fun answer found => ?_
  subst found
  have bases : Gives registry (name ∈ ·.1)
      (World.namesWithin.baseNames (world.namesWithin depth) [.cls next] (ref.qualName :: visited)) :=
    visit.bind fun below found => gives_pure (mem_append_left [] found)
  exact (gives_eq rfl).bind fun own _ => bases.bind fun below found =>
    gives_pure (mem_append_right own found)

theorem memberWithin_gives (known : registry.lookup ref = .ok { ref, bases := [.cls next] })
    (own : (registry.members { ref, bases := [.cls next] }).get? name = none)
    (visit : ∀ visited, Gives registry (·.1 = none) (world.memberWithin name depth next [] visited)) :
    Gives registry (·.1 = none) (world.memberWithin name (depth + 1) ref [] visited) := by
  rw [World.memberWithin]
  split
  · exact gives_pure rfl
  have looked : Gives registry (· = _) (world.lookup ref) := ⟨_, known, rfl⟩
  refine looked.bind fun answer found => ?_
  subst found
  refine (gives_eq rfl).bind fun owner _ => ?_
  have lacks : Gives registry (· = .ok none) (world.ownMember { ref, bases := [.cls next] } name) :=
    ⟨_, congrArg Except.ok own, rfl⟩
  refine lacks.bind fun member same => ?_
  subst same
  refine (gives_eq rfl).bind fun base same => ?_
  subst same
  refine (visit _).bind fun result missed => ?_
  obtain ⟨_, after⟩ := result
  cases missed
  exact gives_pure rfl

theorem link_ne {text : String} (long : text.length ≠ 1) : text ≠ (link place).qualName := by
  rintro rfl
  exact long (String.length_singleton ..)

theorem link_inj {other : Nat} (small : place < 130) (few : other < 130)
    (same : (link place).qualName = (link other).qualName) : place = other := by
  have toNat {place : Nat} (small : place < 130) : (Char.ofNat place).toNat = place := by
    rw [Char.ofNat, dif_pos (.inl (by omega))]
    rfl
  rw [← toNat small, ← toNat few]
  exact congrArg Char.toNat (String.singleton_inj.mp same)

theorem get?_cons_of_ne {α : Type} {key : String} {value : α} {rest : Table α}
    (differs : key ≠ name) : Table.get? ((key, value) :: rest) name = rest.get? name :=
  if_neg fun same => differs (eq_of_beq same)

theorem get?_links {α : Type} (value : Nat → α) {start count : Nat} (low : start ≤ place)
    (high : place < start + count) (few : start + count ≤ 130) :
    Table.get? ((range' start count).map fun place => ((link place).qualName, value place))
      (link place).qualName = some (value place) := by
  induction count generalizing start with
  | zero => omega
  | succ count ih =>
    rw [range'_succ, map_cons]
    rcases Nat.eq_or_lt_of_le low with rfl | low
    · exact if_pos (beq_self_eq_true _)
    · rw [get?_cons_of_ne fun same => absurd (link_inj (by omega) (by omega) same) (by omega)]
      exact ih low (by omega) (by omega)

theorem tower_get? (inside : place < 127) :
    tower.classes.get? (link place).qualName =
      some { cls := { ref := link place, bases := [.cls (link (place + 1))] } } := by
  rw [tower, get?_cons_of_ne (link_ne (by decide)), get?_cons_of_ne (link_ne (by decide)),
    get?_cons_of_ne fun same => absurd (link_inj (by decide) (by omega) same) (by omega), range_eq_range']
  exact get?_links _ (Nat.zero_le _) (by omega) (by omega)

theorem tower_lookup (inside : place < 127) :
    tower.lookup (link place) = .ok { ref := link place, bases := [.cls (link (place + 1))] } := by
  rw [lookup, tower_get? inside]

theorem tower_listed (deep : 127 < depth + place) (inside : place ≤ 127)
    (fresh : ∀ other ≤ 127, place ≤ other → (link other).qualName ∉ visited) :
    Gives tower ("deep" ∈ ·.1) (world.namesWithin depth (link place) visited) := by
  induction depth generalizing place visited with
  | zero => omega
  | succ depth ih =>
    have new := fresh place inside (Nat.le_refl _)
    rcases Nat.lt_or_eq_of_le inside with inside | rfl
    · refine namesWithin_gives (tower_lookup inside) new (ih (by omega) inside ?_)
      intro other high low listed
      rcases mem_cons.mp listed with same | listed
      · exact absurd (link_inj (by omega) (by omega) same) (by omega)
      · exact fresh other high (by omega) listed
    · rw [World.namesWithin, if_neg (by simpa using new)]
      exact ⟨(["deep"], _), mem_singleton_self _, rfl⟩

theorem tower_missed (deep : depth + place ≤ 127) (visited : List String) :
    Gives tower (·.1 = none) (world.memberWithin "deep" depth (link place) [] visited) := by
  induction depth generalizing place visited with
  | zero => exact gives_pure rfl
  | succ depth ih =>
    refine memberWithin_gives (tower_lookup (by omega)) ?_ (ih (by omega))
    rw [members, tower_get? (by omega)]
    rfl

end Walks

/-- What is above `object` is searched one class less deep than it is listed. -/
theorem root_listed_deeper :
    tower.nominal = true ∧
    ((world.listMembers (.cls (inModule "A"))).run tower).toOption.map (·.1.contains "deep") =
      some true ∧
    ((world.lookupMember (.cls (inModule "A")) "deep").run tower).toOption.map
      (·.1.toOption.isSome) = some false := by
  have above : Gives tower ("deep" ∈ ·.1) (world.namesWithin (maxBaseDepth + 1) .object []) :=
    namesWithin_gives rfl not_mem_nil (tower_listed (by decide) (by decide) fun other _ _ listed =>
      link_ne (by decide) (mem_singleton.mp listed).symm)
  have names : Gives tower ("deep" ∈ ·) (world.classNames (inModule "A")) := by
    refine (gives_eq rfl : Gives tower (· = ([], ["m.A"])) _).bind fun own same => ?_
    subst same
    exact above.bind fun below found => gives_pure found
  obtain ⟨names, listed, ran⟩ : Gives tower ("deep" ∈ ·) (world.listMembers (.cls (inModule "A"))) :=
    names.bind fun names found => gives_pure (mem_eraseDups.mpr (mem_mergeSort.mpr found))
  have beyond : Gives tower (·.1 = none) (world.memberWithin "deep" maxBaseDepth .object [] ["m.A"]) :=
    memberWithin_gives rfl rfl (tower_missed (Nat.le_refl 127))
  have missed : Gives tower (· = none) (world.classMember "deep" (inModule "A") []) := by
    refine (gives_eq rfl : Gives tower (· = (none, ["m.A"])) _).bind fun own same => ?_
    subst same
    exact beyond.bind fun result missed => gives_pure missed
  obtain ⟨found, none, searched⟩ : Gives tower (·.toOption.isSome = false)
      (world.lookupMember (.cls (inModule "A")) "deep") := by
    refine missed.bind fun result same => ?_
    subst same
    exact gives_pure rfl
  rw [ran, searched]
  exact ⟨by decide +kernel, congrArg some (contains_iff_mem.mpr listed), congrArg some none⟩

end Registry

end Stubwise
