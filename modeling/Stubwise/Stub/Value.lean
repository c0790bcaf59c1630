import Stubwise.Hint
import Stubwise.Stub.Chain

/-!
What declarations stand for: the class or parameter that a name means in a hint, the value that it
has in a program, and classes with their bases.
-/

namespace Stubwise

namespace Class

def baseParts : Ty → Option SpecialForm × List Ty
  | .app ref args => (SpecialForm.ofRef? ref, args)
  | t => (SpecialForm.of? t, [])

def isMark (base : Ty) : Bool :=
  match (baseParts base).1 with
  | some .protocol | some .generic => true
  | _ => false

def params? : Ty → Option TypeParam
  | .var name bound => some { name, bound }
  | _ => none

/-- Sets the bases of a class. -/
def withBases (cls : Class) (written : List Ty) : Class :=
  let marks := written.filter isMark
  let bases := written.filter (!isMark ·)
  let isProtocol := marks.any fun mark => (baseParts mark).1 == some .protocol
  let args := marks.flatMap fun mark => (baseParts mark).2
  let params :=
    if args.isEmpty then bases.flatMap (·.varOccurrences) else args.filterMap params?
  { cls with bases, isProtocol, params := TypeParam.distinct params }

end Class

def VarDecl.isSpecialForm (decl : VarDecl) : Bool :=
  decl.module == ClassRef.typingModule &&
    (decl.hint.map (·.dotted)).getD "" == "_SpecialForm"

def VarDecl.ref (decl : VarDecl) : ClassRef :=
  { module := decl.module, name := decl.name }

namespace FuncDecl

/-- The definitions that count: the overloads if there are any, else the last one that is neither
the setter nor the deleter of a property. -/
def candidates (decl : FuncDecl) : List FunctionDef :=
  match decl.definitions.filter (·.decoratorNames.contains "overload") with
  | [] =>
    let plain := decl.definitions.filter fun definition =>
      let decorators := definition.decoratorNames
      !(decorators.contains "setter" || decorators.contains "deleter")
    plain.getLast?.toList
  | overloads => overloads

end FuncDecl

namespace Stubs

/-- Types that are defined by one another are looked through no deeper than this. -/
def maxDefinitionDepth : Nat :=
  500

/-- The parameter that a declaration introduces. -/
def typeVar (named : String → Except Stop Ty) (decl : TypeVarDecl) : Except Stop Ty := do
  match decl.bound with
  | none => return .var decl.name none
  | some bound => do
    match ← attempt (Hint.type (fun dotted => named (decl.names.qualify dotted)) bound) with
    | .ok bound => return .var decl.name (some bound)
    | .error _ => return .var decl.name none

/-- What a qualified name means as a type, looking at most `depth` definitions far. -/
def typeNamedWithin (stubs : Stubs) : Nat → String → Except Stop Ty
  | 0, _ => .error (.crash .endless)
  | depth + 1, qualName => do
    let named := stubs.typeNamedWithin depth
    let refused := Stop.fault (.coded .unsupported s!"{qualName} is not a type")
    match ← stubs.follow qualName with
    | .class_ decl => return .cls decl.ref
    | .typeVar decl => typeVar named decl
    | .var decl =>
      if decl.isSpecialForm then return .cls decl.ref
      else match decl.hint, decl.value with
        | none, some value =>
          Hint.type (fun dotted => named (decl.names.qualify dotted)) value
        | _, _ => throw refused
    | _ => throw refused

abbrev typeNamed (stubs : Stubs) (qualName : String) : Except Stop Ty :=
  stubs.typeNamedWithin maxDefinitionDepth qualName

abbrev hintType (stubs : Stubs) (names : NameTable) (hint : Expr) : Except Stop Ty :=
  Hint.type (fun dotted => stubs.typeNamed (names.qualify dotted)) hint

/-- The function that a declaration stands for. -/
abbrev function (stubs : Stubs) (decl : FuncDecl) : Except Stop Func := do
  let definitions := decl.candidates
  let overloads ← definitions.mapM fun definition => do
    let (signature, _) ←
      Hint.signature (fun dotted => stubs.typeNamed (decl.names.qualify dotted)) definition
    return ⟨signature.params, some (signature.returns.getD .any), none⟩
  return { name := decl.name, overloads,
           decorators := (definitions.head?.map (·.decoratorNames)).getD [] }

def plainValue (stubs : Stubs) : Decl → Except Stop Ty
  | .module decl => return .module decl.name
  | .class_ decl => return .type (.cls decl.ref)
  | .func decl => return .func (← stubs.function decl)
  | .typeVar decl => return .type (← typeVar stubs.typeNamed decl)
  | .aliasOf decl =>
    throw (.fault (.coded .stubNotFound s!"cannot use declaration {decl.name}"))
  | .var decl => do
    if decl.isSpecialForm then return .type (.cls decl.ref)
    match decl.hint, decl.value with
    | some hint, _ => stubs.hintType decl.names hint
    | none, some (.constant _ kind _) => return kind.type
    | none, some value => do
      match ← attempt (stubs.hintType decl.names value) with
      | .ok t => return .type t
      | .error _ => return .any
    | none, none => return .any

/-- The value that a declaration has in a program: a module, a class, a function, or an instance of
the type of a variable. -/
def value (stubs : Stubs) : Decl → Except Stop Ty
  | .aliasOf decl => do stubs.plainValue (← stubs.follow decl.target)
  | decl => stubs.plainValue decl

abbrev valueNamed (stubs : Stubs) (qualName : String) : Except Stop Ty := do
  stubs.value (← stubs.follow qualName)

abbrev baseTypes (stubs : Stubs) (decl : ClassDecl) (bases : List Expr) : Except Stop (List Ty) := do
  let found ← bases.mapM fun base => attempt (stubs.hintType decl.names base)
  return found.filterMap (·.toOption)

def classNamed (stubs : Stubs) (ref : ClassRef) : Except Stop (Class × ClassDecl) := do
  match ← stubs.follow ref.qualName with
  | .class_ decl => do
    let bases ← stubs.baseTypes decl decl.bases
    let cls : Class := { ref := decl.ref, decorators := decl.decorators }
    return (cls.withBases bases, decl)
  | _ => throw (.fault (.coded .stubNotFound s!"{ref.qualName} is not a class"))

def member (stubs : Stubs) (decl : ClassDecl) (name : String) : Except Stop (Option Ty) := do
  match Table.get? decl.members name with
  | none => return none
  | some member => return some (← stubs.value member)

end Stubs

end Stubwise
