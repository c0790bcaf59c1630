import Stubwise.Lattice.Protocol

/-!
A world given by a table of classes: all classes and their members are declared beforehand, and
there are no modules.
-/

namespace Stubwise

structure Declaration where
  cls : Class
  members : Table Ty := []
  deriving Inhabited

structure Registry where
  classes : Table Declaration := []
  instances : Instances := {}
  assumptions : Std.TreeSet String := {}
  deriving Inhabited

namespace Registry

abbrev Run := StateT Registry (Except Crash)

def define (registry : Registry) (declaration : Declaration) : Registry :=
  { registry with classes := registry.classes.set declaration.cls.ref.qualName declaration }

def lookup (registry : Registry) (ref : ClassRef) : Except Fault Class :=
  match registry.classes.get? ref.qualName with
  | some declaration => .ok declaration.cls
  | none => .error (.coded .stubNotFound s!"no declaration for class {ref.qualName}")

def members (registry : Registry) (cls : Class) : Table Ty :=
  ((registry.classes.get? cls.ref.qualName).map (·.members)).getD []

def world : World Run where
  lookup ref := return (← get).lookup ref
  memberNames cls := return ((← get).members cls).keys
  ownMember cls name := return .ok (((← get).members cls).get? name)
  moduleMember module name := return .error ((Ty.module module).missingAttribute name)
  instances := return (← get).instances
  setInstances instances := modify fun registry => { registry with instances }
  assumptions := return (← get).assumptions
  setAssumptions assumptions := modify fun registry => { registry with assumptions }
  crash crash := throw crash

end Registry

end Stubwise
