import Stubwise.Proofs.Run
import Stubwise.Stub.Chain

namespace Stubwise

open List StubTree Cached

variable {requests : List String} {name : String}

namespace StubSource

/-- A source that reads no module, and remembers of its tree only what the tree says. -/
structure Faithful (source : StubSource) : Prop where
  modules : ∀ name found, source.modules.get? name = some found →
    source.tree.module? name = .ok (some found)
  missing : ∀ name ∈ source.missing, source.tree.module? name = .ok none
  reading : source.reading = []

theorem new_faithful (tree : StubTree) : Faithful { tree } where
  modules := nofun
  missing := nofun
  reading := rfl

theorem Faithful.keep {source : StubSource} (faithful : source.Faithful) (name : String) :
    (source.keep name (source.tree.module? name)).Faithful := by
  match answer : source.tree.module? name with
  | .ok (some found) =>
    refine ⟨fun other known holds => ?_, faithful.missing, faithful.reading⟩
    simp only [StubSource.keep, Table.get?_set] at holds
    split at holds
    next same =>
      cases holds
      exact eq_of_beq same ▸ answer
    next => exact faithful.modules other known holds
  | .ok none =>
    exact ⟨faithful.modules, forall_mem_cons.mpr ⟨answer, faithful.missing⟩, faithful.reading⟩
  | .error _ => exact faithful

@[simp]
theorem keep_tree (source : StubSource) (name : String) (answer : Except Stop (Option StubModule)) :
    (source.keep name answer).tree = source.tree := by
  unfold keep
  split <;> rfl

theorem keep_marked {source : StubSource} (unmarked : source.reading = []) (name : String)
    (answer : Except Stop (Option StubModule)) :
    let kept := { source with reading := [name] : StubSource }.keep name answer
    { kept with reading := kept.reading.erase name : StubSource } = source.keep name answer := by
  obtain ⟨tree, modules, missing, reading⟩ := source
  subst unmarked
  match answer with
  | .ok (some _) | .ok none | .error _ => simp [keep]

/-- Work on a source that comes to the same answer whatever the source remembers of the tree. -/
def Answers {α : Type} (tree : StubTree) (run : ExceptT Stop (StateM StubSource) α)
    (answer : Except Stop α) : Prop :=
  ∀ source : StubSource, source.tree = tree → source.Faithful → (run.run.run source).1 = answer ∧
      (run.run.run source).2.tree = tree ∧ (run.run.run source).2.Faithful

variable {α β : Type} {tree : StubTree}

theorem answers_pure (value : α) : Answers tree (pure value) (.ok value) :=
  fun _ of faithful => ⟨rfl, of, faithful⟩

theorem answers_throw (stop : Stop) :
    Answers tree (throw stop : ExceptT Stop (StateM StubSource) α) (.error stop) :=
  fun _ of faithful => ⟨rfl, of, faithful⟩

theorem answers_bind {run : ExceptT Stop (StateM StubSource) α} {answer : Except Stop α}
    {next : α → ExceptT Stop (StateM StubSource) β} {rest : α → Except Stop β}
    (first : Answers tree run answer) (later : ∀ value, Answers tree (next value) (rest value)) :
    Answers tree (run >>= next) (answer >>= rest) := by
  intro source of faithful
  obtain ⟨same, of, faithful⟩ := first source of faithful
  subst same
  rw [Run.run_bind]
  generalize run.run.run source = ended at of faithful ⊢
  match ended with
  | (.ok value, left) => exact later value left of faithful
  | (.error stop, left) => exact ⟨rfl, of, faithful⟩

theorem module?_answers (name : String) : Answers tree (module? name) (tree.module? name) := by
  intro source of faithful
  subst of
  match known : source.modules.get? name with
  | some found =>
    have run_eq : (module? name).run.run source = (.ok (some found), source) := by
      simp only [module?, Run.run_get_bind, known]
      rfl
    rw [run_eq]
    exact ⟨(faithful.modules name found known).symm, rfl, faithful⟩
  | none =>
    by_cases lost : name ∈ source.missing
    · have run_eq : (module? name).run.run source = (.ok none, source) := by
        simp only [module?, Run.run_get_bind, known, contains_iff_mem, lost, if_true]
        rfl
      rw [run_eq]
      exact ⟨(faithful.missing name lost).symm, rfl, faithful⟩
    · have run_eq : (module? name).run.run source =
          (source.tree.module? name, source.keep name (source.tree.module? name)) := by
        simp only [module?, Run.run_get_bind, known, contains_iff_mem, lost,
          faithful.reading, not_mem_nil, if_false]
        simp only [Run.run_bind, Run.run_modify, Run.run_ofExcept, faithful.reading,
          keep_marked faithful.reading]
      rw [run_eq]
      exact ⟨rfl, keep_tree .., faithful.keep name⟩

theorem longestModuleBy_answers (rest segments : List String) :
    Answers tree (longestModuleBy module? rest segments) (longestModuleBy tree.module? rest segments) := by
  induction segments generalizing rest with
  | nil => exact answers_pure none
  | cons last _ ih =>
    refine answers_bind (module?_answers _) fun found => ?_
    match found with
    | some found => exact answers_pure _
    | none => exact ih (last :: rest)

theorem resolve_answers (steps : Nat) (qualName : String) :
    Answers tree (resolve steps qualName) (resolveBy tree.module? steps qualName) := by
  induction steps generalizing qualName with
  | zero => exact answers_throw _
  | succ _ ih =>
    refine answers_bind (longestModuleBy_answers _ _) fun found => ?_
    match found with
    | none => exact answers_throw _
    | some (_, []) => exact answers_pure _
    | some (found, first :: rest) =>
      dsimp only
      match found.members.get? first with
      | none => exact answers_throw _
      | some decl =>
        dsimp only
        match descend decl rest with
        | .found decl => exact answers_pure _
        | .through target => exact ih _
        | .nowhere => exact answers_throw _

end StubSource

namespace StubChain

/-- A chain whose sources are those of its trees, and are faithful to them. -/
structure Faithful (trees : List StubTree) (chain : StubChain) : Prop where
  trees_eq : chain.sources.map (·.tree) = trees
  sources : ∀ source ∈ chain.sources, source.Faithful

theorem new_faithful (trees : List StubTree) : Faithful trees { trees } where
  trees_eq := by simp [Function.comp_def]
  sources := forall_mem_map.mpr fun tree _ => StubSource.new_faithful tree

theorem askEach_answers (steps : Nat) (qualName : String) {sources : List StubSource}
    (faithful : ∀ source ∈ sources, source.Faithful) :
    (askEach steps qualName sources).1 = Stubs.resolveIn steps qualName (sources.map (·.tree)) ∧
      (askEach steps qualName sources).2.map (·.tree) = sources.map (·.tree) ∧
      ∀ source ∈ (askEach steps qualName sources).2, source.Faithful := by
  induction sources with
  | nil => exact ⟨rfl, rfl, nofun⟩
  | cons source _ ih =>
    obtain ⟨self, others⟩ := forall_mem_cons.mp faithful
    obtain ⟨same, of, kept⟩ := StubSource.resolve_answers steps qualName source rfl self
    obtain ⟨rest_same, rest_of, rest_kept⟩ := ih others
    simp only [askEach, map_cons, Stubs.resolveIn, ← same]
    generalize (StubSource.resolve steps qualName).run.run source = ended at of kept ⊢
    match ended with
    | (.ok decl, left) =>
      exact ⟨rfl, by rw [map_cons, of], forall_mem_cons.mpr ⟨kept, others⟩⟩
    | (.error stop, left) =>
      dsimp only at of kept ⊢
      by_cases passed : stop.isNotFound
      · rw [if_pos passed, if_pos passed]
        exact ⟨rest_same, by rw [map_cons, of, rest_of], forall_mem_cons.mpr ⟨kept, rest_kept⟩⟩
      · rw [if_neg passed, if_neg passed]
        exact ⟨rfl, by rw [map_cons, of], forall_mem_cons.mpr ⟨kept, others⟩⟩

theorem resolveWithin_answers (steps : Nat) (qualName : String) {trees : List StubTree}
    {chain : StubChain} (faithful : chain.Faithful trees) :
    ((resolveWithin steps qualName).run chain).1 = Stubs.resolveIn steps qualName trees ∧
      ((resolveWithin steps qualName).run chain).2.Faithful trees := by
  obtain ⟨same, of, kept⟩ := askEach_answers steps qualName faithful.sources
  exact ⟨same.trans (congrArg _ faithful.trees_eq), of.trans faithful.trees_eq, kept⟩

end StubChain

namespace Cached

variable {σ : Type} {cache : Cached σ}

/-- The answers to requests one after another, and the cache behind them. -/
def serve (ask : String → StateM σ (Except Stop Decl)) (requests : List String) (stubs : σ) :
    List (Except Stop Decl) × Cached σ :=
  (requests.mapM (resolve ask)).run { stubs }

def noting (ask : String → StateM σ (Except Stop Decl)) (qualName : String) :
    StateM (σ × List String) (Except Stop Decl) := fun (stubs, asked) =>
  let (answer, stubs) := (ask qualName).run stubs
  (answer, stubs, asked ++ [qualName])

/-- What stands behind a cache gives the answers that `answer` says, and keeps an invariant that may
depend on the names it was asked for. -/
def Asks (answer : String → Except Stop Decl) (inv : List String → σ → Prop)
    (ask : String → StateM σ (Except Stop Decl)) : Prop :=
  ∀ asked name stubs, inv asked stubs →
    ((ask name).run stubs).1 = answer name ∧ inv (asked ++ [name]) ((ask name).run stubs).2

/-- What a cache holds after requests to which `answer` gives the answers. What stands behind it
was asked for each name once. -/
structure Served (answer : String → Except Stop Decl) (inv : List String → σ → Prop)
    (requests : List String) (cache : Cached σ) : Prop where
  entries : ∀ name, cache.entries.get? name = if name ∈ requests then some (answer name) else none
  distinct : requests.eraseDups.Nodup
  behind : inv requests.eraseDups cache.stubs
  misses : cache.misses = requests.eraseDups.length
  hits : cache.hits + cache.misses = requests.length

variable {answer : String → Except Stop Decl} {inv : List String → σ → Prop}
  {ask : String → StateM σ (Except Stop Decl)}

theorem eraseDups_again (old : name ∈ requests) : (requests ++ [name]).eraseDups = requests.eraseDups := by
  simp [eraseDups_append, removeAll, old]

theorem eraseDups_new (new : name ∉ requests) :
    (requests ++ [name]).eraseDups = requests.eraseDups ++ [name] := by
  simp [eraseDups_append, removeAll, new, eraseDups_cons]

theorem resolve_of_known {kept : Except Stop Decl} (known : cache.entries.get? name = some kept) :
    (resolve ask name).run cache = (kept, { cache with hits := cache.hits + 1 }) := by
  simp only [resolve, StateT.run_bind, StateT.run_get, pure_bind, known]
  rfl

theorem resolve_of_unknown (unknown : cache.entries.get? name = none) :
    (resolve ask name).run cache = (((ask name).run cache.stubs).1, { cache with
          stubs := ((ask name).run cache.stubs).2
          entries := cache.entries.set name ((ask name).run cache.stubs).1
          misses := cache.misses + 1 }) := by
  simp only [resolve, StateT.run_bind, StateT.run_get, pure_bind, unknown]
  rfl

/-- A request is answered, and its answer remembered. -/
theorem resolve_served (asks : Asks answer inv ask)
    (served : Served answer inv requests cache) (name : String) :
    ((resolve ask name).run cache).1 = answer name ∧
      Served answer inv (requests ++ [name]) ((resolve ask name).run cache).2 := by
  have hits := served.hits
  by_cases old : name ∈ requests
  · have known : cache.entries.get? name = some (answer name) := by rw [served.entries, if_pos old]
    rw [resolve_of_known known]
    refine ⟨rfl, ?_, ?_, ?_, ?_, ?_⟩
    · intro other
      have same : other ∈ requests ++ [name] ↔ other ∈ requests := by
        simpa using fun is => is ▸ old
      simp only [served.entries, same]
    · exact eraseDups_again old ▸ served.distinct
    · exact eraseDups_again old ▸ served.behind
    · exact eraseDups_again old ▸ served.misses
    · simp only [length_append, length_singleton]
      omega
  · have unknown : cache.entries.get? name = none := by rw [served.entries, if_neg old]
    obtain ⟨same, behind⟩ := asks _ name _ served.behind
    rw [resolve_of_unknown unknown, same]
    refine ⟨rfl, ?_, ?_, ?_, ?_, ?_⟩
    · intro other
      by_cases is : name = other
      · subst is
        simp
      · have differ : other ≠ name := fun h => is h.symm
        simp [served.entries, is, differ]
    · rw [eraseDups_new old, nodup_append]
      refine ⟨served.distinct, by simp, fun other listed one one_listed => ?_⟩
      rw [mem_singleton.mp one_listed]
      exact fun is => old (is ▸ mem_eraseDups.mp listed)
    · exact eraseDups_new old ▸ behind
    · simp [eraseDups_new old, served.misses]
    · simp only [length_append, length_singleton]
      omega

theorem new_served {stubs : σ} (start : inv [] stubs) : Served answer inv [] { stubs } where
  entries := by simp [Table.get?]
  distinct := by simp
  behind := start
  misses := rfl
  hits := rfl

theorem mapM_served (asks : Asks answer inv ask) (requests : List String) {before : List String}
    (served : Served answer inv before cache) :
    ((requests.mapM (resolve ask)).run cache).1 = requests.map answer ∧ Served answer inv (before ++ requests)
        ((requests.mapM (resolve ask)).run cache).2 := by
  induction requests generalizing before cache with
  | nil => exact ⟨rfl, (append_nil before).symm ▸ served⟩
  | cons name rest ih =>
    obtain ⟨same, next⟩ := resolve_served asks served name
    obtain ⟨rest_same, last⟩ := ih next
    rw [append_assoc] at last
    simp only [mapM_cons, StateT.run_bind, map_cons]
    exact ⟨congr (congrArg _ same) rest_same, last⟩

theorem serve_served (asks : Asks answer inv ask) (requests : List String) {stubs : σ}
    (start : inv [] stubs) :
    (serve ask requests stubs).1 = requests.map answer ∧
      Served answer inv requests (serve ask requests stubs).2 :=
  mapM_served asks requests (new_served start)

end Cached

/-- The answers of a cache over a chain of stub trees do not depend on what was asked before: each
one is that of a new chain that is asked for this name alone, and of the trees themselves. The chain
is asked once for each name, however often the name is requested; this is what the cache counts as
misses, and all other requests are hits. This holds however many aliases a request may go through;
`StubCache.resolve` allows `maxAliasSteps` of them. -/
theorem StubChain.answers_ignore_history (steps : Nat) (trees : List StubTree) (requests : List String) :
    let ask := StubChain.resolveWithin steps
    let served := serve ask requests { trees }
    let asked := (serve (noting ask) requests ({ trees }, [])).2.stubs.2
    served.1 = requests.map (fun name => ((ask name).run { trees }).1) ∧
      served.1 = requests.map (fun name => Stubs.resolveIn steps name trees) ∧
      asked.Nodup ∧ (∀ name, name ∈ asked ↔ name ∈ requests) ∧
      served.2.misses = asked.length ∧ served.2.hits + served.2.misses = requests.length := by
  intro ask served asked
  let answer := fun name => Stubs.resolveIn steps name trees
  have new := StubChain.new_faithful trees
  have plain : Cached.Asks answer (fun _ => Faithful trees) ask :=
    fun _ name _ faithful => resolveWithin_answers steps name faithful
  have noting : Cached.Asks answer (fun names state => state.1.Faithful trees ∧ state.2 = names)
      (noting ask) := fun names name state holds =>
    have ⟨same, faithful⟩ := resolveWithin_answers steps name holds.1
    ⟨same, faithful, congrArg (· ++ [name]) holds.2⟩
  obtain ⟨same, counts⟩ := serve_served plain requests new
  obtain ⟨_, noted⟩ := @serve_served _ _ _ _ noting requests ({ trees }, []) ⟨new, rfl⟩
  have asked_eq : asked = requests.eraseDups := noted.behind.2
  refine ⟨?_, same, asked_eq ▸ noted.distinct, ?_, asked_eq ▸ counts.misses, counts.hits⟩
  · rw [same]
    refine map_congr_left fun name _ => ?_
    exact (resolveWithin_answers steps name new).1.symm
  · intro name
    rw [asked_eq, mem_eraseDups]

end Stubwise
