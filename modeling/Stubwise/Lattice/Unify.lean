import Stubwise.Lattice.Member

namespace Stubwise

def maxMatchDepth : Nat :=
  64

abbrev Matched := Option Fault × Subst

namespace Matched

def conflict (name : String) (existing t : Ty) : Fault :=
  .coded .unificationFailure
    s!"type parameter {name} bound to {existing.text}, cannot rebind to {t.text}"

def tooDeep (formal concrete : Ty) : Fault :=
  .coded .unificationFailure
    s!"generic instantiation too deep while unifying {formal.text} with {concrete.text}"

def unbound (names : List String) : Fault :=
  .ofFinding .unificationFailure (.unboundParams names)

end Matched

namespace World

variable {m : Type → Type} [Monad m]

open Lattice

def bindParam (world : World m) (conforms : Conforms m) (name : String) (t : Ty)
    (bindings : Subst) : m Matched := do
  if t.occursIn name then return (none, bindings)
  match bindings.get? name with
  | none => return (none, bindings.set name t)
  | some existing =>
    if existing.isAny || t.isAny || t.equal existing then return (none, bindings)
    else if ← world.subtype conforms t existing then return (none, bindings)
    else return (some (Matched.conflict name existing t), bindings)

def bindRest (names : List String) (bindings : Subst) : Subst :=
  names.foldl (fun bindings name =>
    if bindings.contains name then bindings else bindings.set name .any) bindings

def matchPairs (step : Subst → Ty → Ty → m Matched) : Subst → List (Ty × Ty) → m Matched
  | bindings, [] => return (none, bindings)
  | bindings, (formal, concrete) :: rest => do
    match ← step bindings formal concrete with
    | (some fault, bindings) => return (some fault, bindings)
    | (none, bindings) => matchPairs step bindings rest

/-- Matches the first of several formal types that fits. Only its bindings are kept. -/
def matchSome (step : Subst → Ty → Ty → m Matched) (bindings : Subst) (concrete : Ty) :
    Option Fault → List Ty → m Matched
  | first, [] => return (first, bindings)
  | first, formal :: rest => do
    match ← step bindings formal concrete with
    | (none, bindings) => return (none, bindings)
    | (some fault, _) => matchSome step bindings concrete (some (first.getD fault)) rest

def belowSome (world : World m) (conforms : Conforms m) (concrete : Ty) : List Ty → m Bool :=
  anyOf fun arm => if arm.hasFreeVars then return false else world.subtype conforms concrete arm

def joinBindings (world : World m) (conforms : Conforms m) (before : Subst) :
    Subst → List (String × Ty) → m Subst
  | joined, [] => return joined
  | joined, (name, t) :: rest => do
    if before.contains name then world.joinBindings conforms before joined rest
    else
      let t ← match joined.get? name with
        | none => pure t
        | some other => joinWith (world.subtype conforms) other t
      world.joinBindings conforms before (joined.set name t) rest

def matchArms (world : World m) (conforms : Conforms m) (step : Subst → Ty → Ty → m Matched)
    (bindings : Subst) (formal : Ty) : Subst → List Ty → m (Except Fault Subst)
  | joined, [] => return .ok joined
  | joined, arm :: rest => do
    match ← step bindings formal arm with
    | (some fault, _) => return .error fault
    | (none, bound) => do
      let joined ← world.joinBindings conforms bindings joined bound
      world.matchArms conforms step bindings formal joined rest

def bindAll (world : World m) (conforms : Conforms m) : Subst → List (String × Ty) → m Matched
  | bindings, [] => return (none, bindings)
  | bindings, (name, t) :: rest => do
    match ← world.bindParam conforms name t bindings with
    | (some fault, bindings) => return (some fault, bindings)
    | (none, bindings) => world.bindAll conforms bindings rest

def argPairs : List Ty → List Ty → List (Ty × Ty)
  | [], _ => []
  | formal :: formals, [] => (formal, .any) :: argPairs formals []
  | formal :: formals, concrete :: concretes => (formal, concrete) :: argPairs formals concretes

def matchWithin (world : World m) (conforms : Conforms m) :
    Nat → Subst → Ty → Ty → m Matched
  | 0, bindings, formal, concrete => return (some (Matched.tooDeep formal concrete), bindings)
  | depth + 1, bindings, formal, concrete => do
    let step := world.matchWithin conforms depth
    if !formal.hasFreeVars then return (none, bindings)
    match formal, concrete with
    | .var name _, concrete => world.bindParam conforms name concrete bindings
    | formal, .any => return (none, bindRest formal.freeVars bindings)
    | .union arms, concrete => do
      if ← world.belowSome conforms concrete arms then return (none, bindings)
      match arms.filter (·.hasFreeVars) with
      | [arm] => step bindings arm concrete
      | open_ => matchSome step bindings concrete none open_
    | formal, .union arms => do
      match ← world.matchArms conforms step bindings formal [] arms with
      | .error fault => return (some fault, bindings)
      | .ok joined =>
        world.bindAll conforms bindings (joined.mergeSort fun a b => decide (a.1 ≤ b.1))
    | .tuple formals, concrete => do
      let elements? : Option (List Ty) := match concrete with
        | .tuple elements => if elements.length == formals.length then some elements else none
        | _ => none
      match elements? with
      | some elements => matchPairs step bindings (formals.zip elements)
      | none => do
        match ← world.upcast conforms concrete .tuple with
        | none => return (none, bindings)
        | some args =>
          let element := args.head?.getD .any
          matchPairs step bindings (formals.map fun formal => (formal, element))
    | .app ref formals, concrete => do
      match ← world.upcast conforms concrete ref with
      | none => return (none, bindings)
      | some args => matchPairs step bindings (argPairs formals args)
    | .type formal, .type concrete => step bindings formal concrete
    | _, _ => return (none, bindings)

/-- Matches a formal type against a concrete one. An undeclared formal type binds nothing, and a
missing concrete type is `Any`. -/
def matchTypes (world : World m) (conforms : Conforms m) (bindings : Subst)
    (formal concrete : Option Ty) : m Matched := do
  match formal with
  | none => return (none, bindings)
  | some formal =>
    world.matchWithin conforms (maxMatchDepth + 1) bindings formal (concrete.getD .any)

def resolve (world : World m) (bindings : Subst) (t : Ty) : m (Except Fault Ty) := do
  match t.freeVars.filter fun name => !bindings.contains name with
  | [] => return .ok (← world.apply bindings t)
  | names => return .error (Matched.unbound names)

/-- Puts the bindings into a type. Parameters without a binding are bound to `Any`. -/
abbrev resolveLenient (world : World m) (bindings : Subst) (t : Ty) : m (Ty × Subst) := do
  let bindings := bindRest t.freeVars bindings
  return (← world.apply bindings t, bindings)

end World

end Stubwise
