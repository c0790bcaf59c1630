import Stubwise.Lattice.Registry

/-!
The lattice of types over a world: subtyping, joins, members and matching, with conformance to
protocols settled by checking members.
-/

namespace Stubwise.World

variable {m : Type → Type} [Monad m]

abbrev isSubtype (world : World m) (a b : Ty) : m Bool :=
  world.subtype world.conforms a b

abbrev isSubtypeOrEqual (world : World m) (a b : Ty) : m Bool := do
  if a.equal b then return true else world.isSubtype a b

abbrev join (world : World m) (a b : Ty) : m Ty :=
  Lattice.joinWith world.isSubtype a b

abbrev joinMissing (world : World m) (a b : Option Ty) : m (Option Ty) :=
  Lattice.joinOption world.isSubtype a b

abbrev joinAll (world : World m) (types : List Ty) : m Ty :=
  Lattice.joinAllWith world.isSubtype types

abbrev asInstanceOf (world : World m) (t : Ty) (target : ClassRef) : m (Option (List Ty)) :=
  world.upcast world.conforms t target

abbrev lookupMember (world : World m) (t : Ty) (name : String) : m (Except Fault Found) :=
  world.member world.conforms name t

def listMembers (world : World m) (t : Ty) : m (List String) :=
  world.members world.conforms t

def bind (world : World m) (bindings : Subst) (name : String) (t : Ty) : m Matched :=
  world.bindParam world.conforms name t bindings

abbrev unify (world : World m) (bindings : Subst) (formal concrete : Option Ty) : m Matched :=
  world.matchTypes world.conforms bindings formal concrete

def compose (world : World m) (second : Subst) : Subst → m Subst
  | [] => return second
  | (name, t) :: first => do
    let t ← world.apply second t
    return (← world.compose second first).set name t

end Stubwise.World
