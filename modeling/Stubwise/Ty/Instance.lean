import Stubwise.Ty.Subst

namespace Stubwise

structure Instances where
  attributes : Array (Table Ty) := #[]
  deriving Inhabited

namespace Instances

def attrs (instances : Instances) (id : Nat) : Table Ty :=
  instances.attributes.getD id []

def modify (instances : Instances) (id : Nat) (change : Table Ty → Table Ty) : Instances :=
  { attributes := instances.attributes.modify id change }

def setAttr (instances : Instances) (id : Nat) (name : String) (t : Ty) : Instances :=
  instances.modify id (·.set name t)

def deleteAttr (instances : Instances) (id : Nat) (name : String) : Instances :=
  instances.modify id (·.erase name)

def make (instances : Instances) (base : Ty) (attrs : Table Ty := []) : Ty × Instances :=
  (.object instances.attributes.size base, { attributes := instances.attributes.push attrs })

end Instances

/-- Work that makes copies of instances. It fails if it would go on for ever, as with an instance
that has itself as an attribute. -/
abbrev Copying := StateT Instances Option

namespace Ty

def copyImage (copy : Nat → Ty → Copying Ty) (image : String → Option (Copying Ty)) :
    Ty → Option (Copying Ty)
  | object id base => copy id base
  | t => varImage image t

abbrev mapVarsCopying (copy : Nat → Ty → Copying Ty) (image : String → Option (Copying Ty)) (t : Ty) :
    Copying Ty :=
  t.rebuild (copyImage copy image)

end Ty

namespace Subst

def copyWithin (subst : Subst) (copy : Nat → Ty → Copying Ty) :
    Nat → List String → Ty → Copying Ty
  | 0, _, t => t.mapVarsCopying copy fun _ => none
  | steps + 1, passed, t =>
    t.mapVarsCopying copy fun name =>
      (subst.imageOf passed name).map (copyWithin subst copy steps (name :: passed))

/-- Applies a substitution, copying instances with `copy`. The empty substitution makes a copy
only of an instance itself and of one inside class objects. -/
def copyType (subst : Subst) (copy : Nat → Ty → Copying Ty) : Ty → Copying Ty
  | .object id base => copy id base
  | .type inner => return .type (← subst.copyType copy inner)
  | t => if subst.isEmpty then return t else subst.copyWithin copy subst.length [] t

/-- The copy of an instance under a substitution. Copying goes on into its attributes, so it is
bounded by the number of instances: a longer way would come to one of them again. -/
def copyInstance (subst : Subst) : Nat → Nat → Ty → Copying Ty
  | 0, _, _ => failure
  | bound + 1, id, base => do
    let base ← subst.copyType (subst.copyInstance bound) base
    let attrs ← ((← get).attrs id).mapM fun (name, t) =>
      return (name, ← subst.copyType (subst.copyInstance bound) t)
    modifyGet (·.make base attrs)

end Subst

def Instances.apply (instances : Instances) (subst : Subst) (t : Ty) : Option (Ty × Instances) :=
  (subst.copyType (subst.copyInstance instances.attributes.size) t).run instances

end Stubwise
