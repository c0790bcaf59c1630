import Std.Data.TreeSet
import Stubwise.Fault
import Stubwise.Ty.Instance

namespace Stubwise

/-- The head of a class. Its bases name other classes, so classes may refer to each other freely. -/
structure Class where
  ref : ClassRef
  params : List TypeParam := []
  bases : List Ty := []
  isProtocol : Bool := false
  decorators : List String := []
  stamp : Nat := 0
  deriving Inhabited

namespace Class

def selfType (cls : Class) : Ty :=
  if cls.params.isEmpty then .cls cls.ref else .app cls.ref (cls.params.map (·.toTy))

def text (cls : Class) : String :=
  "class " ++ cls.selfType.text

def substOf : List TypeParam → List Ty → Subst → Subst
  | [], _, subst => subst
  | param :: params, [], subst => substOf params [] (subst.set param.name .any)
  | param :: params, arg :: args, subst => substOf params args (subst.set param.name arg)

def subst (cls : Class) (args : List Ty) : Subst :=
  substOf cls.params args []

end Class

structure World (m : Type → Type) where
  lookup : ClassRef → m (Except Fault Class)
  memberNames : Class → m (List String)
  ownMember : Class → String → m (Except Fault (Option Ty))
  moduleMember : String → String → m (Except Fault Ty)
  instances : m Instances
  setInstances : Instances → m Unit
  assumptions : m (Std.TreeSet String)
  setAssumptions : Std.TreeSet String → m Unit
  crash : {α : Type} → Crash → m α

namespace World

variable {m : Type → Type} [Monad m]

def apply (world : World m) (subst : Subst) (t : Ty) : m Ty := do
  if t.objectFree && subst.objectFree then return subst.apply t
  match (← world.instances).apply subst t with
  | none => world.crash .endless
  | some (t, instances) => do
    world.setInstances instances
    return t

end World

namespace Ty

def missingAttribute (owner : Ty) (name : String) : Fault :=
  .ofFinding .attributeNotFound (.missingAttribute owner.text name)

def functionRef : ClassRef :=
  .builtin "function"

def typeRef : ClassRef :=
  .builtin "type"

def moduleRef : ClassRef :=
  { module := "types", name := "ModuleType" }

/-- The class and the arguments that a type counts as. Unions, variables, `Any` and literals of
several classes count as none. -/
def nominal? : Ty → Option (ClassRef × List Ty)
  | cls ref => some (ref, [])
  | app ref args => some (ref, args)
  | tuple elements => some (.tuple, [unionOf elements])
  | literal values =>
    match literalClasses values with
    | [ref] => some (ref, [])
    | _ => none
  | object _ base => base.nominal?
  | func _ | method .. => some (functionRef, [])
  | type inner => some (typeRef, [inner])
  | module _ => some (moduleRef, [])
  | any | var .. | union _ => none

end Ty

end Stubwise
