import Stubwise.Infer.Session

namespace Stubwise

/-- What inference needs to go on: a way to run the body of a definition by its number, and the
world of classes, which does so for attributes. -/
structure Engine where
  body : Nat → Infer Ty
  world : World Infer

structure KeywordArg where
  name : String
  type : Ty

structure Receiver where
  value : Ty
  owner : Ty

def Receiver.self (receiver : Receiver) : Ty :=
  match receiver.value with
  | .type inner => inner
  | t => t

namespace Signature

/-- The formal types for a number of positional arguments, and whether the arguments can fit: there
are not too many of them, and no parameter lacks one that it needs. -/
def formalsFor (signature : Signature) (count : Nat) (isBound : Bool) (keywords : List String) :
    List (Option Ty) × Bool :=
  let positional := signature.params.filter fun param =>
    param.kind == .positional || param.kind == .positionalOnly
  let positional := if isBound then positional.drop 1 else positional
  let rest := (signature.params.filter (·.kind == .varArgs)).getLast?
  let taken := (positional.take count).map (·.type)
  let surplus := count - positional.length
  let filled := (positional.drop count).all fun param =>
    param.hasDefault || keywords.contains param.name
  let named := signature.params.all fun param =>
    param.kind != .keywordOnly || param.hasDefault || keywords.contains param.name
  (taken ++ List.replicate surplus (rest.bind (·.type)),
    (surplus == 0 || rest.isSome) && filled && named)

def paramNamed (signature : Signature) (name : String) : Option Formal :=
  signature.params.find? fun param =>
    param.name == name && (param.kind == .positional || param.kind == .keywordOnly)

end Signature

def keywordNames (keywords : List KeywordArg) : List String :=
  (keywords.map (·.name)).filter (!·.isEmpty)

def typeList (types : List Ty) : String :=
  ", ".intercalate (types.map (·.text))

abbrev unmatchedOverload (name : String) (args : List Ty) : Stop :=
  .fault (.coded .unmatchedOverload s!"no overload of {name} matches ({typeList args})")

namespace Engine

def unifyAll (engine : Engine) : Subst → List (Option Ty × Ty) → Infer Matched
  | bindings, [] => return (none, bindings)
  | bindings, (formal, arg) :: rest => do
    match ← engine.world.unify bindings formal (some arg) with
    | (some fault, bindings) => return (some fault, bindings)
    | (none, bindings) => engine.unifyAll bindings rest

def ownerSubst (engine : Engine) (owner : Ty) : Infer Subst := do
  match owner.nominal? with
  | none => return []
  | some (ref, args) => do
    match ← engine.world.lookup ref with
    | .ok cls => return cls.subst args
    | .error _ => return []

def returnOf (engine : Engine) (signature : Signature) (receiver : Option Receiver) :
    Infer Ty := do
  let result ← match signature.returns, signature.body with
    | some t, _ => pure t
    | none, none => pure .any
    | none, some definition => do
      let t ← engine.body definition
      match receiver with
      | none => pure t
      | some receiver => do engine.world.apply (← engine.ownerSubst receiver.owner) t
  match receiver with
  | none => return result
  | some receiver => return Ty.replaceSelf receiver.self result

def bindReceiver (engine : Engine) (function : Func) (signature : Signature)
    (receiver : Option Receiver) (bindings : Subst) : Infer Matched := do
  match receiver, signature.params with
  | some receiver, first :: _ =>
    if function.hasDecorator "staticmethod" || first.kind == .varArgs ||
        first.kind == .keywordOnly then
      return (none, bindings)
    else engine.world.unify bindings first.type (some receiver.value)
  | _, _ => return (none, bindings)

/-- Whether arguments are below their formal types. -/
def argsFit (engine : Engine) (receiver : Option Receiver) (bindings : Subst) :
    List (Option Ty × Ty) → Infer Bool
  | [] => return true
  | (none, _) :: rest => engine.argsFit receiver bindings rest
  | (some formal, arg) :: rest => do
    if arg.isAny then engine.argsFit receiver bindings rest
    else
      let wanted ← engine.world.apply bindings formal
      let wanted := match receiver with
        | none => wanted
        | some receiver => Ty.replaceSelf receiver.self wanted
      if ← engine.world.isSubtypeOrEqual arg wanted then
        engine.argsFit receiver bindings rest
      else return false

/-- The bindings under which arguments fit a signature, if they do. -/
def matchSignature (engine : Engine) (function : Func) (signature : Signature)
    (receiver : Option Receiver) (args : List Ty) (keywords : List String) :
    Infer (Option Subst) := do
  let (formals, fits) := signature.formalsFor args.length receiver.isSome keywords
  if !fits then return none
  match ← engine.bindReceiver function signature receiver [] with
  | (some _, _) => return none
  | (none, bindings) => do
    let pairs := formals.zip args
    match ← engine.unifyAll bindings pairs with
    | (some _, _) => return none
    | (none, bindings) => do
      if ← engine.argsFit receiver bindings pairs then return some bindings else return none

abbrev unifyKeywords (engine : Engine) (signature : Signature) (bindings : Subst)
    (keywords : List KeywordArg) : Infer Matched :=
  engine.unifyAll bindings (keywords.filterMap fun keyword =>
    (signature.paramNamed keyword.name).map fun param => (param.type, keyword.type))

def matchedOrThrow : Matched → Infer Subst
  | (none, bindings) => return bindings
  | (some fault, _) => throw (.fault fault)

abbrev callSignature (engine : Engine) (function : Func) (signature : Signature)
    (receiver : Option Receiver) (args : List Ty) (keywords : List KeywordArg) : Infer Ty := do
  let result ← engine.returnOf signature receiver
  if !result.hasFreeVars then return result
  let bindings ← matchedOrThrow (← engine.bindReceiver function signature receiver [])
  let formals :=
    (signature.formalsFor args.length receiver.isSome (keywordNames keywords)).1
  let bindings ← matchedOrThrow (← engine.unifyAll bindings (formals.zip args))
  let bindings ← matchedOrThrow (← engine.unifyKeywords signature bindings keywords)
  Session.ofExcept (← engine.world.resolve bindings result)

def firstMatch (engine : Engine) (function : Func) (receiver : Option Receiver)
    (args : List Ty) (keywords : List String) : List Signature → Infer Ty
  | [] => throw (unmatchedOverload function.name args)
  | signature :: rest => do
    match ← engine.matchSignature function signature receiver args keywords with
    | none => engine.firstMatch function receiver args keywords rest
    | some bindings => do
      let result ← engine.returnOf signature receiver
      Session.ofExcept (← engine.world.resolve bindings result)

abbrev resolveOverload (engine : Engine) (function : Func) (receiver : Option Receiver)
    (args : List Ty) (keywords : List KeywordArg) : Infer Ty := do
  if (← get).strict && !keywords.isEmpty then
    throw (.fault (.coded .unmatchedOverload
      s!"keyword arguments are not matched against the overloads of {function.name}"))
  engine.firstMatch function receiver args (keywordNames keywords) function.overloads

def callFunction (engine : Engine) (function : Func) (receiver : Option Receiver)
    (args : List Ty) (keywords : List KeywordArg) : Infer Ty :=
  match function.overloads with
  | [] => throw (.fault (.coded .malformedOverload s!"{function.name} declares no signatures"))
  | [signature] => engine.callSignature function signature receiver args keywords
  | _ => engine.resolveOverload function receiver args keywords

/-- What an attribute is that was found as a member: a function is bound to its receiver, and a
property is read. -/
def bindMember (engine : Engine) (value : Ty) (name : String) (found : Found) : Infer Ty :=
  match found.member with
  | .func function =>
    let owner := found.owner
    match value with
    | .module _ => return .func function
    | .type _ =>
      if function.hasDecorator "classmethod" then
        return .method value owner name function
      else return .func function
    | _ =>
      if function.hasDecorator "staticmethod" then return .func function
      else if function.hasDecorator "classmethod" then
        return .method (.type value) owner name function
      else if function.hasDecorator "property" then
        engine.callFunction function (some { value, owner }) [] []
      else return .method value owner name function
  | member => return member

abbrev plainAttribute (engine : Engine) (value : Ty) (name : String) : Infer Ty := do
  engine.bindMember value name (← Session.ofExcept (← engine.world.lookupMember value name))

abbrev armAttribute (engine : Engine) (whole : Ty) (name : String) (arm : Ty) : Infer Ty := do
  match ← attempt (engine.plainAttribute arm name) with
  | .ok t => return t
  | .error fault =>
    if fault.hasCode .typeVariableAccess then throw (.fault fault)
    else throw (.fault (.coded .attributeNotFound
      s!"{whole.text} has no attribute {Text.quote name} on every arm"))

def attributeOf (engine : Engine) (value : Ty) (name : String) : Infer Ty := do
  match value with
  | .union arms => do engine.world.joinAll (← arms.mapM (engine.armAttribute value name))
  | value => engine.plainAttribute value name

end Engine

end Stubwise
