import Stubwise.Infer.Function

namespace Stubwise

abbrev Caller := Ty → List Ty → List KeywordArg → Infer Ty

namespace Engine

abbrev callMember (engine : Engine) (call : Caller) (value : Ty) (name : String) (args : List Ty) :
    Infer Ty := do
  call (← engine.attributeOf value name) args []

/-- What iterating over a value that is neither a union nor a literal gives: `__next__` of what
`__iter__` gives. -/
def elementOfPlain (engine : Engine) (call : Caller) (t : Ty) : Infer Ty := do
  match t with
  | .any => return .any
  | .tuple elements => engine.world.joinAll elements
  | t => do
    match ← attempt (engine.callMember call t "__iter__" []) with
    | .ok .any => return .any
    | .ok iterator => engine.callMember call iterator "__next__" []
    | .error fault =>
      if fault.hasCode .attributeNotFound then
        throw (.fault (fault.wrapped .attributeNotFound s!"{t.text} is not iterable"))
      else throw (.fault fault)

def elementOfArm (engine : Engine) (call : Caller) : Ty → Infer Ty
  | .literal values => do
    match ← engine.world.joinAll ((Ty.literalClasses values).map .cls) with
    | .union arms => do engine.world.joinAll (← arms.mapM (engine.elementOfPlain call))
    | joined => engine.elementOfPlain call joined
  | t => engine.elementOfPlain call t

def elementType (engine : Engine) (call : Caller) : Ty → Infer Ty
  | .union arms => do engine.world.joinAll (← arms.mapM (engine.elementOfArm call))
  | t => engine.elementOfArm call t

def mappingRef : ClassRef :=
  { module := ClassRef.typingModule, name := "Mapping" }

abbrev mappingArgs (engine : Engine) (t : Ty) : Infer (Option (Ty × Ty)) := do
  match ← engine.world.asInstanceOf t (.builtin "dict") with
  | some args => return some (pairOfArgs args)
  | none => return (← engine.world.asInstanceOf t mappingRef).map pairOfArgs
where
  pairOfArgs (args : List Ty) : Ty × Ty :=
    (args.head?.getD .any, (args.drop 1).head?.getD .any)

def pairOf (engine : Engine) (call : Caller) (index : Nat) (t : Ty) : Infer (Ty × Ty) := do
  match t with
  | .any | .tuple [] => return (.any, .any)
  | .tuple [both] => return (both, both)
  | .tuple [key, value] => return (key, value)
  | .tuple elements =>
    throw (.fault (.ofFinding .malformedDict (.dictArity index elements.length)))
  | t => do
    let element ← engine.elementType call t
    return (element, element)

def dictArgPairs (engine : Engine) (call : Caller) : List Ty → Infer (List (Ty × Ty))
  | [] => return []
  | arg :: _ => do
    match ← engine.mappingArgs arg with
    | some pair => return [pair]
    | none => do
      (← engine.elementType call arg).arms.zipIdx.mapM fun (t, index) => engine.pairOf call index t

abbrev keywordPairs (engine : Engine) (keyword : KeywordArg) : Infer (List (Ty × Ty)) := do
  if keyword.name.isEmpty then return (← engine.mappingArgs keyword.type).toList
  else return [(.strType, keyword.type)]

abbrev makeDict (engine : Engine) (call : Caller) (args : List Ty) (keywords : List KeywordArg) :
    Infer Ty := do
  let positional ← engine.dictArgPairs call args
  let pairs := positional ++ (← keywords.mapM engine.keywordPairs).flatten
  if pairs.isEmpty then return .dictOf .any .any
  let key ← engine.world.joinAll (pairs.map (·.1))
  let value ← engine.world.joinAll (pairs.map (·.2))
  return .dictOf key value

def specializedClasses : List String :=
  ["list", "tuple", "set", "frozenset", "dict", "enumerate", "zip"]

def makeContainer (engine : Engine) (call : Caller) (ref : ClassRef) (args : List Ty)
    (keywords : List KeywordArg) : Infer Ty := do
  match ref.name, args with
  | "dict", args => engine.makeDict call args keywords
  | "enumerate", [] => return .builtinOf ref.name [.any]
  | "enumerate", arg :: _ => return .builtinOf ref.name [← engine.elementType call arg]
  | "zip", args => return .builtinOf ref.name [.tuple (← args.mapM (engine.elementType call))]
  | name, [] => return .builtinOf name [.any]
  | name, arg :: _ =>
    match arg.nominal? with
    | some (argRef, _) =>
      if argRef == ref then return arg
      else return .builtinOf name [← engine.elementType call arg]
    | none => return .builtinOf name [← engine.elementType call arg]

end Engine

end Stubwise
