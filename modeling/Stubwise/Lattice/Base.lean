import Stubwise.Lattice.World

/-!
The search through the bases of classes. Classes are visited depth first, each one once, and no
deeper than a limit.
-/

namespace Stubwise

def maxBaseDepth : Nat :=
  128

/-- A way to see a type as an instance of a class: the arguments of the class, if it is one. It
decides where the bases do not. -/
abbrev Conforms (m : Type → Type) := Ty → ClassRef → m (Option (List Ty))

namespace World

variable {m : Type → Type} [Monad m]

/-- The first thing that `visit` finds in the classes that are the bases of a class under given
arguments. The classes visited are passed on. -/
def searchBases {α : Type} (world : World m)
    (visit : ClassRef → List Ty → List String → m (Option α × List String)) (subst : Subst) :
    List Ty → List String → m (Option α × List String)
  | [], visited => return (none, visited)
  | base :: rest, visited => do
    match (← world.apply subst base).nominal? with
    | none => world.searchBases visit subst rest visited
    | some (ref, args) => do
      match ← visit ref args visited with
      | (some found, visited) => return (some found, visited)
      | (none, visited) => world.searchBases visit subst rest visited

/-- Looks for a class among the bases of a class, at most `depth` steps down. Gives the arguments
that the class found is applied to. -/
def upcastWithin (world : World m) (target : ClassRef) :
    Nat → ClassRef → List Ty → List String → m (Option (List Ty) × List String)
  | depth, ref, args, visited => do
    if ref.same target then return (some args, visited)
    if target.same .object then return (some [], visited)
    match depth with
    | 0 => return (none, visited)
    | depth + 1 => do
      if visited.contains ref.qualName then return (none, visited)
      let visited := ref.qualName :: visited
      match ← world.lookup ref with
      | .error _ => return (none, visited)
      | .ok cls => world.searchBases (world.upcastWithin target depth) (cls.subst args) cls.bases visited

abbrev upcastClass (world : World m) (ref : ClassRef) (args : List Ty) (target : ClassRef) :
    m (Option (List Ty)) := do
  return (← world.upcastWithin target (maxBaseDepth + 1) ref args []).1

def upcast (world : World m) (conforms : Conforms m) (t : Ty) (target : ClassRef) :
    m (Option (List Ty)) := do
  match t.nominal? with
  | none => return none
  | some (ref, args) => do
    match ← world.upcastClass ref args target with
    | some args => return some args
    | none => conforms t target

end World

end Stubwise
