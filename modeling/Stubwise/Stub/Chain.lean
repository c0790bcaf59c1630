import Stubwise.Stub.Tree

namespace Stubwise

structure StubSource where
  tree : StubTree
  modules : Table StubModule := []
  missing : List String := []
  reading : List String := []

namespace StubSource

/-- Keeps what the tree said about a module. -/
def keep (source : StubSource) (name : String) :
    Except Stop (Option StubModule) → StubSource
  | .ok (some found) => { source with modules := source.modules.set name found }
  | .ok none => { source with missing := name :: source.missing }
  | .error _ => source

def module? (name : String) : ExceptT Stop (StateM StubSource) (Option StubModule) := do
  let source ← get
  match source.modules.get? name with
  | some found => return some found
  | none =>
    if source.missing.contains name then
      return none
    else if source.reading.contains name then
      throw (.fault (.coded .stubNotFound s!"cyclic stub load of {name}"))
    else do
      modify fun source => { source with reading := name :: source.reading }
      let answer := source.tree.module? name
      modify fun source => source.keep name answer
      modify fun source => { source with reading := source.reading.erase name }
      MonadExcept.ofExcept answer

def resolve (steps : Nat) (qualName : String) : ExceptT Stop (StateM StubSource) Decl :=
  StubTree.resolveBy module? steps qualName

end StubSource

def Stop.isNotFound : Stop → Bool
  | .fault cause => cause.hasCode .stubNotFound
  | .crash _ => false

def followWithin {m : Type → Type} [Monad m] (resolve : String → m (Except Stop Decl))
    (start : String) : Nat → List String → String → m (Except Stop Decl)
  | 0, _, _ => return .error (.crash .endless)
  | steps + 1, seen, name => do
    if seen.contains name then
      return .error (.fault (.coded .stubNotFound s!"alias cycle through {start}"))
    match ← resolve name with
    | .ok (.aliasOf decl) => followWithin resolve start steps (name :: seen) decl.target
    | other => return other

def followAliases {m : Type → Type} [Monad m] (resolve : String → m (Except Stop Decl))
    (qualName : String) : m (Except Stop Decl) :=
  followWithin resolve qualName StubTree.maxAliasSteps [] qualName

structure Stubs where
  trees : List StubTree := []

namespace Stubs

def resolveIn (steps : Nat) (qualName : String) : List StubTree → Except Stop Decl
  | [] => .error (.fault (StubTree.notFound qualName))
  | tree :: rest =>
    match StubTree.resolveBy tree.module? steps qualName with
    | .ok decl => .ok decl
    | .error stop => if stop.isNotFound then resolveIn steps qualName rest else .error stop

def resolve (stubs : Stubs) (qualName : String) : Except Stop Decl :=
  resolveIn StubTree.maxAliasSteps qualName stubs.trees

def follow (stubs : Stubs) (qualName : String) : Except Stop Decl :=
  Id.run (followAliases (fun name => pure (stubs.resolve name)) qualName)

end Stubs

structure StubChain where
  trees : List StubTree := []
  sources : List StubSource := trees.map fun tree => { tree }

namespace StubChain

/-- Asks sources one after another. -/
def askEach (steps : Nat) (qualName : String) :
    List StubSource → Except Stop Decl × List StubSource
  | [] => (.error (.fault (StubTree.notFound qualName)), [])
  | source :: rest =>
    match (StubSource.resolve steps qualName).run.run source with
    | (.ok decl, source) => (.ok decl, source :: rest)
    | (.error stop, source) =>
      if stop.isNotFound then
        let (answer, rest) := askEach steps qualName rest
        (answer, source :: rest)
      else (.error stop, source :: rest)

def resolveWithin (steps : Nat) (qualName : String) : StateM StubChain (Except Stop Decl) := do
  let chain ← get
  let (answer, sources) := askEach steps qualName chain.sources
  set { chain with sources }
  return answer

def resolve (qualName : String) : StateM StubChain (Except Stop Decl) :=
  resolveWithin StubTree.maxAliasSteps qualName

end StubChain

structure Cached (σ : Type) where
  stubs : σ
  entries : Table (Except Stop Decl) := []
  hits : Nat := 0
  misses : Nat := 0

def Cached.resolve {σ : Type} (ask : String → StateM σ (Except Stop Decl)) (qualName : String) :
    StateM (Cached σ) (Except Stop Decl) := do
  let cache ← get
  match cache.entries.get? qualName with
  | some answer => do
    set { cache with hits := cache.hits + 1 }
    return answer
  | none => do
    let (answer, stubs) := (ask qualName).run cache.stubs
    set { cache with
      stubs
      entries := cache.entries.set qualName answer
      misses := cache.misses + 1 }
    return answer

abbrev StubCache :=
  Cached StubChain

namespace StubCache

def resolve (qualName : String) : StateM StubCache (Except Stop Decl) :=
  Cached.resolve StubChain.resolve qualName

def follow (qualName : String) : StateM StubCache (Except Stop Decl) :=
  followAliases resolve qualName

end StubCache

end Stubwise
