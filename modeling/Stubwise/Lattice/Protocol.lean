import Stubwise.Lattice.Unify

namespace Stubwise

def Ty.memberResult : Ty → Ty
  | .method _ _ _ function => functionResult function
  | .func function => functionResult function
  | t => t
where
  functionResult (function : Func) : Ty :=
    (function.overloads.head?.bind (·.returns)).getD .any

namespace World

variable {m : Type → Type} [Monad m]

def protocolNames (world : World m) : Nat → Class → List String → m (List String)
  | 0, _, names => return names
  | depth + 1, cls, names => do
    let names := NameSet.insertAll names (← world.memberNames cls)
    ofBases (world.protocolNames depth) cls.bases names
where
  ofBases (visit : Class → List String → m (List String)) : List Ty → List String → m (List String)
    | [], names => return names
    | base :: rest, names =>
      match base.nominal? with
      | none => ofBases visit rest names
      | some (ref, _) => do
        match ← world.lookup ref with
        | .ok cls => do
          if cls.isProtocol then ofBases visit rest (← visit cls names)
          else ofBases visit rest names
        | .error _ => ofBases visit rest names

inductive MemberCheck where
  | failed
  | deferred
  | met (bindings : Subst)

def checkMember (world : World m) (conforms : Conforms m) (proto : Class) (target : ClassRef)
    (t : Ty) (late : Bool) (bindings : Subst) (name : String) : m MemberCheck := do
  match (← world.memberWithin name maxBaseDepth target (proto.params.map (·.toTy)) []).1 with
  | some (.ok wanted) => do
    match ← world.member conforms name t with
    | .error _ => return .failed
    | .ok got => do
      let result := Ty.replaceSelf t got.member.memberResult
      if !late && result.identical t then return .deferred
      let formal := Ty.replaceSelf t wanted.member.memberResult
      match ← world.matchTypes conforms bindings (some formal) (some result) with
      | (none, bindings) => return .met bindings
      | (some _, _) => return .failed
  | _ => return .failed

def checkMembers (check : Subst → String → m MemberCheck) :
    Subst → List String → m (Option (Subst × List String))
  | bindings, [] => return some (bindings, [])
  | bindings, name :: rest => do
    match ← check bindings name with
    | .failed => return none
    | .deferred =>
      return (← checkMembers check bindings rest).map fun (bindings, later) =>
        (bindings, name :: later)
    | .met bindings => checkMembers check bindings rest

def resolveParams (world : World m) : Subst → List TypeParam → m (List Ty)
  | _, [] => return []
  | bindings, param :: rest => do
    let (arg, bindings) ← world.resolveLenient bindings param.toTy
    return arg :: (← world.resolveParams bindings rest)

abbrev checkProtocol (world : World m) (conforms : Conforms m) (proto : Class) (t : Ty)
    (target : ClassRef) : m (Option (List Ty)) := do
  let names ← world.protocolNames (maxBaseDepth + 1) proto []
  match ← checkMembers (world.checkMember conforms proto target t false) [] names with
  | none => return none
  | some (bindings, later) => do
    match ← checkMembers (world.checkMember conforms proto target t true) bindings later with
    | none => return none
    | some (bindings, _) => return some (← world.resolveParams bindings proto.params)

abbrev conformsStep (world : World m) (conforms : Conforms m) : Conforms m := fun t target => do
  match ← world.lookup target with
  | .error _ => return none
  | .ok proto => do
    if !proto.isProtocol then return none
    let key := t.text ++ "~" ++ target.qualName
    let before ← world.assumptions
    if before.contains key then return some []
    world.setAssumptions (before.insert key)
    let result ← world.checkProtocol conforms proto t target
    world.setAssumptions before
    return result

/-- Conformance with at most `depth` checks inside each other. A check that needs more is taken to
have no end. -/
def conformsWithin (world : World m) : Nat → Conforms m
  | 0, _, _ => world.crash .endless
  | depth + 1, t, target => world.conformsStep (world.conformsWithin depth) t target

def maxConformance : Nat :=
  1000000

abbrev conforms (world : World m) : Conforms m :=
  world.conformsWithin maxConformance

end World

end Stubwise
