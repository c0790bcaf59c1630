import Std.Data.HashMap
import Stubwise.Lattice
import Stubwise.Scope.Hoist
import Stubwise.Stub.Embedded
import Stubwise.Stub.Value

/-!
Sessions. A session holds all that one analysis knows: stubs, classes, frames, definitions of
functions and what was inferred for them, and the diagnostics.
-/

namespace Stubwise

structure FuncInfo where
  definition : FunctionDef
  frame : Nat
  cls : Option Class
  classes : List Class
  signature : Signature
  decorators : List String
  self : String

namespace FuncInfo

def isStatic (info : FuncInfo) : Bool :=
  info.decorators.contains "staticmethod"

def isClassMethod (info : FuncInfo) : Bool :=
  info.decorators.contains "classmethod"

end FuncInfo

inductive MemberOrigin where
  | none
  | stub (decl : ClassDecl)
  | assigned (methods : Table (List Nat))

structure MemberTable where
  names : List String := []
  settled : Table Ty := []
  origin : MemberOrigin := .none

instance : Inhabited MemberTable :=
  ⟨{}⟩

namespace MemberTable

def set (table : MemberTable) (name : String) (t : Ty) : MemberTable :=
  { table with
    names := NameSet.insert table.names name
    settled := table.settled.set name t }

end MemberTable

structure Session where
  stubs : Stubs := {}
  module : String := "__main__"
  file : String := ""
  strict : Bool := false
  maxDepth : Nat := 512
  classes : Std.HashMap String Class := {}
  members : Std.HashMap Nat MemberTable := {}
  nextStamp : Nat := 0
  values : Std.HashMap String (Except Fault Ty) := {}
  functions : Std.HashMap Nat FuncInfo := {}
  pending : Array Nat := #[]
  returns : Std.HashMap Nat Ty := {}
  running : List Nat := []
  returned : List Ty := []
  assigned : Std.HashMap String (Table Ty) := {}
  diagnostics : List Diagnostic := []
  types : Std.HashMap Nat Ty := {}
  frames : Frames := {}
  instances : Instances := {}
  assumptions : Std.TreeSet String := {}
  nextNode : Nat := 0

instance : Inhabited Session :=
  ⟨{}⟩

abbrev Infer := ExceptT Stop (StateM Session)

namespace Session

abbrev freshStamp : Infer Nat :=
  modifyGet fun session => (session.nextStamp, { session with nextStamp := session.nextStamp + 1 })

abbrev defineClass (cls : Class) (table : MemberTable := {}) : Infer Class := do
  let stamp ← freshStamp
  let cls := { cls with stamp }
  modify fun session => { session with
    classes := session.classes.insert cls.ref.qualName cls
    members := session.members.insert stamp table }
  return cls

def memberTable (session : Session) (cls : Class) : MemberTable :=
  session.members.getD cls.stamp {}

abbrev modifyMembers (cls : Class) (change : MemberTable → MemberTable) : Infer Unit :=
  modify fun session => { session with
    members := session.members.insert cls.stamp (change (session.memberTable cls)) }

/-- The class that a reference names. -/
def lookupClass (ref : ClassRef) : Infer (Except Fault Class) := do
  let session ← get
  match session.classes[ref.qualName]? with
  | some cls => return .ok cls
  | none => do
    match session.stubs.classNamed ref with
    | .error (.fault fault) => return .error fault
    | .error (.crash crash) => throw (.crash crash)
    | .ok (cls, decl) => do
      let stamp ← freshStamp
      let cls := { cls with stamp }
      let table : MemberTable :=
        { names := Table.keys decl.members, origin := .stub decl }
      modify fun session => { session with
        classes := session.classes.insert ref.qualName cls
        members := session.members.insert stamp table }
      return .ok cls

def ofStubs {α : Type} : Except Stop α → Infer α
  | .ok a => return a
  | .error stop => throw stop

def ofExcept {α : Type} : Except Fault α → Infer α
  | .ok a => return a
  | .error fault => throw (.fault fault)

/-- The value of a name of a module. -/
def moduleMember (module name : String) : Infer (Except Fault Ty) := do
  let qualName := module ++ "." ++ name
  let session ← get
  match session.values[qualName]? with
  | some value => return value
  | none => do
    let value ← attempt (ofStubs (session.stubs.valueNamed qualName))
    let value := value.mapError fun fault => { fault with remembered := some qualName }
    modify fun session => { session with values := session.values.insert qualName value }
    return value

def assignedTo (session : Session) (cls : Class) (attr : String) : Option Ty :=
  (session.assigned.getD cls.ref.qualName []).get? attr

abbrev recordAssigned (cls : Class) (attr : String) (t : Ty) : Infer Unit :=
  modify fun session =>
    let attrs := session.assigned.getD cls.ref.qualName []
    { session with assigned := session.assigned.insert cls.ref.qualName (attrs.set attr t) }

/-- The member that a class declares itself. -/
def ownMember (body : Nat → Infer Ty) (cls : Class) (name : String) :
    Infer (Except Fault (Option Ty)) := do
  let table := (← get).memberTable cls
  match table.settled.get? name with
  | some t => return .ok (some t)
  | none => do
    if !table.names.contains name then return .ok none
    match table.origin with
    | .none => return .ok none
    | .stub decl => do
      match ← attempt (ofStubs ((← get).stubs.member decl name)) with
      | .error fault => return .error fault
      | .ok none => return .ok none
      | .ok (some t) => do
        settle t
        return .ok (some t)
    | .assigned methods => do
      ((methods.get? name).getD []).forM fun definition => do
        let _ ← body definition
      let t := ((← get).assignedTo cls name).getD .any
      settle t
      return .ok (some t)
where
  settle (t : Ty) : Infer Unit :=
    modifyMembers cls fun table => { table with settled := table.settled.set name t }

def world (body : Nat → Infer Ty) : World Infer where
  lookup := lookupClass
  memberNames cls := return ((← get).memberTable cls).names
  ownMember := ownMember body
  moduleMember := moduleMember
  instances := return (← get).instances
  setInstances instances := modify fun session => { session with instances }
  assumptions := return (← get).assumptions
  setAssumptions assumptions := modify fun session => { session with assumptions }
  crash crash := throw (.crash crash)

/-- Reports a diagnostic. Of several with one code at one place the first is kept. -/
def report (diagnostic : Diagnostic) : Infer Unit :=
  modify fun session =>
    let diagnostic := diagnostic.inFile session.file
    let known := session.diagnostics.any fun other =>
      other.position == diagnostic.position && other.code == diagnostic.code
    if known then session
    else { session with diagnostics := diagnostic :: session.diagnostics }

def reportFault (fault : Fault) (position : Position) : Infer Unit :=
  report (fault.positioned position).1

def reportedBefore (a b : Diagnostic) : Bool :=
  if a.position.line != b.position.line then a.position.line < b.position.line
  else if a.position.col != b.position.col then a.position.col < b.position.col
  else decide (a.code.text ≤ b.code.text)

def orderedDiagnostics (session : Session) : List Diagnostic :=
  session.diagnostics.mergeSort reportedBefore

def builtinNames (stubs : Stubs) : Except Stop (List String) := do
  match ← attempt (stubs.resolve ClassRef.builtinsModule) with
  | .ok (.module decl) =>
    decl.names.filterM fun name => do
      if Text.hasPrefix name "_" && !isDunder name then return false
      match ← attempt (stubs.resolve (ClassRef.builtinsModule ++ "." ++ name)) with
      | .ok (.aliasOf _) | .error _ => return false
      | .ok _ => return true
  | _ => return []
where
  isDunder (name : String) : Bool :=
    decide (4 < name.length) && Text.hasPrefix name "__" && Text.hasSuffix name "__"

def start (session : Session) : Except Stop Session := do
  let names ← builtinNames session.stubs
  return { session with frames := { all := #[.builtins names] } }

def addFrame (frame : Frame) : Infer Nat :=
  modifyGet fun session =>
    let (frames, id) := session.frames.add frame
    (id, { session with frames })

abbrev modifyFrame (id : Nat) (change : Frame → Frame) : Infer Unit :=
  modify fun session => { session with frames := session.frames.modify id change }

def loadName (frame : Nat) (name : String) : Infer Ty := do
  match (← get).frames.load frame name with
  | .found t => return t
  | .unbound diagnostic => throw (.ofDiagnostic diagnostic)
  | .crash crash => throw (.crash crash)
  | .unresolved root => do
    let t ← ofExcept (← moduleMember ClassRef.builtinsModule name)
    modifyFrame root (·.bind name t)
    return t

def storeName (frame : Nat) (name : String) (t : Ty) : Infer Unit := do
  match (← get).frames.storeTarget frame name with
  | .ok target => modifyFrame target (·.bind name t)
  | .error stop => throw stop

def deleteName (frame : Nat) (name : String) : Infer Unit := do
  match (← get).frames.deleteTarget frame name with
  | .ok target => modifyFrame target (·.unbind name)
  | .error stop => throw stop

end Session

end Stubwise
