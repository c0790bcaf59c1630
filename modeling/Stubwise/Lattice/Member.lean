import Stubwise.Lattice.Subtype

/-!
Members of types. A member of a class is found on the class itself or on its bases, the root class
last; what is found is given for the arguments that the type has.
-/

namespace Stubwise

structure Found where
  member : Ty
  owner : Ty
  deriving Inhabited

abbrev typeVariableAccess (param name : String) : Fault :=
  .coded .typeVariableAccess
    s!"cannot access attribute {Text.quote name} of unbound type parameter {param}"

namespace World

variable {m : Type → Type} [Monad m]

open Lattice

/-- Looks for a member of a class and its bases, with at most `depth` classes on the way. -/
def memberWithin (world : World m) (name : String) :
    Nat → ClassRef → List Ty → List String → m (Option (Except Fault Found) × List String)
  | 0, _, _, visited => return (none, visited)
  | depth + 1, ref, args, visited => do
    if visited.contains ref.qualName then return (none, visited)
    let visited := ref.qualName :: visited
    match ← world.lookup ref with
    | .error fault => return (some (.error fault), visited)
    | .ok cls => do
      let subst := cls.subst args
      let owner ← if cls.params.isEmpty then pure (.cls ref) else world.apply subst cls.selfType
      match ← world.ownMember cls name with
      | .error fault => return (some (.error fault), visited)
      | .ok (some member) =>
        return (some (.ok { member := ← world.apply subst member, owner }), visited)
      | .ok none => world.searchBases (world.memberWithin name depth) subst cls.bases visited

def classMember (world : World m) (name : String) (ref : ClassRef) (args : List Ty) :
    m (Option (Except Fault Found)) := do
  match ← world.memberWithin name (maxBaseDepth + 1) ref args [] with
  | (some result, _) => return some result
  | (none, visited) =>
    if ref.same .object then return none
    else return (← world.memberWithin name maxBaseDepth .object [] visited).1

/-- Looks for a member of a class as a value. A class without arguments keeps its own
parameters. -/
def classAttribute (world : World m) (name : String) (inner : Ty) :
    m (Option (Except Fault Found)) := do
  match inner with
  | .var param _ => return some (.error (typeVariableAccess param name))
  | .cls ref => do
    match ← world.lookup ref with
    | .ok cls => world.classMember name ref (cls.params.map (·.toTy))
    | .error _ => world.classMember name ref []
  | inner =>
    match inner.nominal? with
    | none => return none
    | some (ref, args) => world.classMember name ref args

def nominalMember (world : World m) (name : String) (t : Ty) : m (Except Fault Found) := do
  match t.nominal? with
  | none => return .error (t.missingAttribute name)
  | some (ref, args) =>
    return (← world.classMember name ref args).getD (.error (t.missingAttribute name))

def plainMember (world : World m) (name : String) (t : Ty) : m (Except Fault Found) := do
  match t with
  | .any => return .ok { member := .any, owner := .any }
  | .var param _ => return .error (typeVariableAccess param name)
  | .module module =>
    return (← world.moduleMember module name).map fun member => { member, owner := t }
  | .type inner => do
    match ← world.classAttribute name inner with
    | some result => return result
    | none => world.nominalMember name t
  | t => world.nominalMember name t

abbrev armFault (whole : Ty) (name : String) (fault : Fault) : Fault :=
  if fault.hasCode .typeVariableAccess then fault else whole.missingAttribute name

def plainArms (world : World m) (name : String) (whole : Ty) :
    List Ty → m (Except Fault (List Ty))
  | [] => return .ok []
  | arm :: rest => do
    match ← world.plainMember name arm with
    | .error fault => return .error (armFault whole name fault)
    | .ok found => return (← world.plainArms name whole rest).map (found.member :: ·)

def joinedMember (world : World m) (conforms : Conforms m) (whole : Ty) :
    Except Fault (List Ty) → m (Except Fault Found)
  | .error fault => return .error fault
  | .ok members => do
    let member ← joinAllWith (world.subtype conforms) members
    return .ok { member, owner := whole }

mutual

/-- The member of a type with a given name. Every arm of a union needs to have it; what was assigned
to an instance comes before the members of its class. -/
def member (world : World m) (conforms : Conforms m) (name : String) :
    Ty → m (Except Fault Found)
  | .union arms => do
    world.joinedMember conforms (.union arms) (← world.memberOfArms conforms name (.union arms) arms)
  | .object id base => do
    match ((← world.instances).attrs id).get? name with
    | some member => return .ok { member, owner := base }
    | none => world.member conforms name base
  | .literal values => do
    match ← world.literalType conforms values with
    | .union arms => do
      world.joinedMember conforms (.union arms) (← world.plainArms name (.union arms) arms)
    | joined => world.plainMember name joined
  | t => world.plainMember name t

def memberOfArms (world : World m) (conforms : Conforms m) (name : String) (whole : Ty) :
    List Ty → m (Except Fault (List Ty))
  | [] => return .ok []
  | arm :: rest => do
    match ← world.member conforms name arm with
    | .error fault => return .error (armFault whole name fault)
    | .ok found => return (← world.memberOfArms conforms name whole rest).map (found.member :: ·)

end

def assignable (t : Ty) (name : String) (position : Position) : Except Fault Unit :=
  match t with
  | .var param _ => .error (.ofDiagnostic ((typeVariableAccess param name).positioned position).1)
  | _ => .ok ()

def namesWithin (world : World m) :
    Nat → ClassRef → List String → m (List String × List String)
  | 0, _, visited => return ([], visited)
  | depth + 1, ref, visited => do
    if visited.contains ref.qualName then return ([], visited)
    let visited := ref.qualName :: visited
    match ← world.lookup ref with
    | .error _ => return ([], visited)
    | .ok cls => do
      let own ← world.memberNames cls
      let (inherited, visited) ← baseNames (world.namesWithin depth) cls.bases visited
      return (own ++ inherited, visited)
where
  baseNames (visit : ClassRef → List String → m (List String × List String)) :
      List Ty → List String → m (List String × List String)
    | [], visited => return ([], visited)
    | base :: rest, visited =>
      match base.nominal? with
      | none => baseNames visit rest visited
      | some (ref, _) => do
        let (names, visited) ← visit ref visited
        let (others, visited) ← baseNames visit rest visited
        return (names ++ others, visited)

def classNames (world : World m) (ref : ClassRef) : m (List String) := do
  let (names, _) ← world.namesWithin (maxBaseDepth + 1) ref []
  if ref.same .object then return names
  return names ++ (← world.namesWithin (maxBaseDepth + 1) .object []).1

def plainNames (world : World m) (t : Ty) : m (List String) := do
  match t.nominal? with
  | none => return []
  | some (ref, _) => world.classNames ref

def commonNames : List (List String) → List String
  | [] => []
  | first :: rest => rest.foldl (fun names others => names.filter (others.contains ·)) first

mutual

def namesOf (world : World m) (conforms : Conforms m) : Ty → m (List String)
  | .union arms => return commonNames (← world.namesOfAll conforms arms)
  | .object id base => do
    let names ← world.namesOf conforms base
    return names ++ ((← world.instances).attrs id).keys
  | .literal values => do
    match ← world.literalType conforms values with
    | .union arms => return commonNames (← arms.mapM world.plainNames)
    | joined => world.plainNames joined
  | t => world.plainNames t

def namesOfAll (world : World m) (conforms : Conforms m) : List Ty → m (List (List String))
  | [] => return []
  | t :: rest => return (← world.namesOf conforms t) :: (← world.namesOfAll conforms rest)

end

def members (world : World m) (conforms : Conforms m) (t : Ty) : m (List String) := do
  return (sortNames (← world.namesOf conforms t)).eraseDups

end World

end Stubwise
