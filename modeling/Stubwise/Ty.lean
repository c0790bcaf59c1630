namespace Stubwise

/-- A class by its module and its name in it, which is dotted for a nested class. -/
structure ClassRef where
  module : String
  name : String
  deriving DecidableEq, Repr, Inhabited

namespace ClassRef

def qualName (ref : ClassRef) : String :=
  if ref.module.isEmpty then ref.name else ref.module ++ "." ++ ref.name

def builtinsModule : String :=
  "builtins"

def typingModule : String :=
  "typing"

def builtin (name : String) : ClassRef :=
  { module := builtinsModule, name }

def object : ClassRef :=
  builtin "object"

def tuple : ClassRef :=
  builtin "tuple"

def same (a b : ClassRef) : Bool :=
  a.qualName == b.qualName

end ClassRef

structure LiteralValue where
  ref : ClassRef
  text : String
  deriving DecidableEq, Repr, Inhabited

inductive ParamKind where
  | positional | positionalOnly | varArgs | keywordOnly | varKeywords
  deriving DecidableEq, Repr, Inhabited

mutual

inductive Ty where
  | any
  | var (name : String) (bound : Option Ty)
  | cls (ref : ClassRef)
  | app (ref : ClassRef) (args : List Ty)
  | tuple (elements : List Ty)
  | union (arms : List Ty)
  | literal (values : List LiteralValue)
  | func (function : Func)
  | method (receiver owner : Ty) (name : String) (function : Func)
  | type (inner : Ty)
  | module (name : String)
  | object (id : Nat) (cls : Ty)

structure Func where
  name : String
  overloads : List Signature
  decorators : List String

/-- Without a return type the result has to be inferred from the body, the definition with the
given node number. -/
structure Signature where
  params : List Formal
  returns : Option Ty
  body : Option Nat

structure Formal where
  name : String
  type : Option Ty
  kind : ParamKind
  hasDefault : Bool

end

instance : Inhabited Ty :=
  ⟨.any⟩

instance : Inhabited Func :=
  ⟨⟨"", [], []⟩⟩

deriving instance Repr for Ty, Func, Signature, Formal

structure TypeParam where
  name : String
  bound : Option Ty := none
  deriving Inhabited

namespace TypeParam

def toTy (param : TypeParam) : Ty :=
  .var param.name param.bound

def distinct (params : List TypeParam) : List TypeParam :=
  params.foldl (fun kept param =>
    if kept.any (·.name == param.name) then kept else kept ++ [param]) []

end TypeParam

def Func.hasDecorator (function : Func) (name : String) : Bool :=
  function.decorators.contains name

namespace Ty

def isAny : Ty → Bool
  | any => true
  | _ => false

def isObject : Ty → Bool
  | cls ref => ref.same .object
  | _ => false

def selfRef : ClassRef :=
  { module := ClassRef.typingModule, name := "Self" }

def builtin (name : String) : Ty :=
  cls (.builtin name)

def objectType : Ty :=
  cls .object

def noneType : Ty :=
  builtin "NoneType"

def boolType : Ty :=
  builtin "bool"

def strType : Ty :=
  builtin "str"

def builtinOf (name : String) (args : List Ty) : Ty :=
  app (.builtin name) args

def listOf (element : Ty) : Ty :=
  builtinOf "list" [element]

def dictOf (key value : Ty) : Ty :=
  builtinOf "dict" [key, value]

def tupleOf (element : Ty) : Ty :=
  app .tuple [element]

def literalClasses (values : List LiteralValue) : List ClassRef :=
  values.foldl (fun refs value => if refs.any (·.same value.ref) then refs else refs ++ [value.ref])
    []

mutual

def objectFree : Ty → Bool
  | any | cls _ | literal _ | module _ => true
  | var _ bound => optionObjectFree bound
  | app _ args => allObjectFree args
  | tuple elements => allObjectFree elements
  | union arms => allObjectFree arms
  | func ⟨_, overloads, _⟩ => overloadsObjectFree overloads
  | method receiver owner _ ⟨_, overloads, _⟩ =>
    receiver.objectFree && owner.objectFree && overloadsObjectFree overloads
  | type inner => inner.objectFree
  | object _ _ => false

def allObjectFree : List Ty → Bool
  | [] => true
  | t :: rest => t.objectFree && allObjectFree rest

def optionObjectFree : Option Ty → Bool
  | none => true
  | some t => t.objectFree

def overloadsObjectFree : List Signature → Bool
  | [] => true
  | ⟨params, returns, _⟩ :: rest =>
    paramsObjectFree params && optionObjectFree returns && overloadsObjectFree rest

def paramsObjectFree : List Formal → Bool
  | [] => true
  | ⟨_, declared, _, _⟩ :: rest => optionObjectFree declared && paramsObjectFree rest

end

mutual

def varOccurrences : Ty → List TypeParam
  | any | cls _ | literal _ | module _ => []
  | var name bound => [⟨name, bound⟩]
  | app _ args => allVarOccurrences args
  | tuple elements => allVarOccurrences elements
  | union arms => allVarOccurrences arms
  | func ⟨_, overloads, _⟩ => overloadVars overloads
  | method _ _ _ ⟨_, overloads, _⟩ => overloadVars overloads
  | type inner => inner.varOccurrences
  | object _ base => base.varOccurrences

def allVarOccurrences : List Ty → List TypeParam
  | [] => []
  | t :: rest => t.varOccurrences ++ allVarOccurrences rest

def optionVars : Option Ty → List TypeParam
  | none => []
  | some t => t.varOccurrences

def overloadVars : List Signature → List TypeParam
  | [] => []
  | ⟨params, returns, _⟩ :: rest => paramVars params ++ optionVars returns ++ overloadVars rest

def paramVars : List Formal → List TypeParam
  | [] => []
  | ⟨_, declared, _, _⟩ :: rest => optionVars declared ++ paramVars rest

end

def freeVars (t : Ty) : List String :=
  (t.varOccurrences.map (·.name)).eraseDups

def hasFreeVars (t : Ty) : Bool :=
  !t.varOccurrences.isEmpty

def occursIn (name : String) (t : Ty) : Bool :=
  t.varOccurrences.any (·.name == name)

end Ty

end Stubwise
