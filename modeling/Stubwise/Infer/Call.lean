import Stubwise.Infer.Element

namespace Stubwise.Engine

abbrev notCallable (message : String) : Stop :=
  .fault (.coded .notCallable message)

/-- The first signature of `__init__` that arguments fit specializes the class. -/
def specializeBy (engine : Engine) (function : Func) (receiver : Receiver) (args : List Ty)
    (keywords : List KeywordArg) :
    Option Fault → List Signature → Infer (Option Subst × Option Fault)
  | failed, [] => return (none, failed)
  | failed, signature :: rest => do
    match ← engine.matchSignature function signature receiver args (keywordNames keywords) with
    | none => engine.specializeBy function receiver args keywords failed rest
    | some bindings => do
      match ← engine.unifyKeywords signature bindings keywords with
      | (none, bindings) => return (some bindings, failed)
      | (some fault, _) => engine.specializeBy function receiver args keywords fault rest

/-- The instance of a generic class that arguments make. -/
def specialize (engine : Engine) (cls : Class) (args : List Ty) (keywords : List KeywordArg) :
    Infer Ty := do
  let self := cls.selfType
  let lenient (bindings : Subst) : Infer Ty := do
    return (← engine.world.resolveLenient bindings self).1
  match ← engine.world.lookupMember self "__init__" with
  | .ok { member := .func function, owner } => do
    match ← engine.specializeBy function { value := self, owner } args keywords none
        function.overloads with
    | (some bindings, _) => lenient bindings
    | (none, failed) =>
      if 1 < function.overloads.length then throw (unmatchedOverload cls.ref.name args)
      else match failed with
        | some fault => throw (.fault fault)
        | none => lenient []
  | _ => lenient []

def constructPlain (engine : Engine) (call : Caller) (t : Ty) (args : List Ty)
    (keywords : List KeywordArg) : Infer Ty := do
  match t with
  | .any | .var .. | .type _ => return .any
  | .app .. | .tuple _ | .literal _ => return t
  | .cls ref => do
    match args, keywords with
    | [arg], [] => if ref == Ty.typeRef then return .type arg
    | _, _ => pure ()
    if ref.module == ClassRef.builtinsModule && specializedClasses.contains ref.name then
      engine.makeContainer call ref args keywords
    else
      let cls ← Session.ofExcept (← engine.world.lookup ref)
      if cls.params.isEmpty then return t else engine.specialize cls args keywords
  | t => throw (notCallable s!"{t.text} cannot be instantiated")

def construct (engine : Engine) (call : Caller) (t : Ty) (args : List Ty)
    (keywords : List KeywordArg) : Infer Ty := do
  match t with
  | .union arms => do engine.world.joinAll (← arms.mapM (engine.constructPlain call · args keywords))
  | t => engine.constructPlain call t args keywords

def callStep (engine : Engine) (call : Caller) : Caller := fun value args keywords => do
  match value with
  | .any => return .any
  | .type inner => engine.construct call inner args keywords
  | .func function => engine.callFunction function none args keywords
  | .method receiver owner _ function =>
    engine.callFunction function (some { value := receiver, owner }) args keywords
  | .union arms => do engine.world.joinAll (← arms.mapM (call · args keywords))
  | .var name _ => throw (.fault (.coded .typeVariableAccess
      s!"cannot call unbound type parameter {name}"))
  | .module name => throw (notCallable s!"module {name} is not callable")
  | value => do
    match ← engine.world.lookupMember value "__call__" with
    | .ok found => do call (← engine.bindMember value "__call__" found) args keywords
    | .error _ => throw (notCallable s!"{value.text} is not callable")

def callWithin (engine : Engine) : Nat → Caller
  | 0, _, _, _ => throw (.crash .endless)
  | depth + 1, value, args, keywords =>
    engine.callStep (engine.callWithin depth) value args keywords

/-- How many calls may be inside each other. -/
def maxCallDepth : Nat :=
  1000000

abbrev call (engine : Engine) : Caller :=
  engine.callWithin maxCallDepth

abbrev callMethod (engine : Engine) (value : Ty) (name : String) (args : List Ty) : Infer Ty :=
  engine.callMember engine.call value name args

abbrev element (engine : Engine) (t : Ty) : Infer Ty :=
  engine.elementType engine.call t

end Stubwise.Engine
