import Stubwise.Lattice.World
import Stubwise.Parser
import Stubwise.Tree.Dotted

namespace Stubwise

def ConstantKind.classRef : ConstantKind → ClassRef
  | int => .builtin "int"
  | float => .builtin "float"
  | complex => .builtin "complex"
  | str => .builtin "str"
  | bytes => .builtin "bytes"
  | bool => .builtin "bool"
  | none => .builtin "NoneType"
  | ellipsis => .builtin "ellipsis"

def ConstantKind.type (kind : ConstantKind) : Ty :=
  .cls kind.classRef

inductive SpecialForm where
  | any | union | optional | literal | callable | generic | protocol | self | classVar | final
  | noReturn | never
  deriving DecidableEq, Repr, Inhabited

namespace SpecialForm

def text : SpecialForm → String
  | any => "Any" | union => "Union" | optional => "Optional" | literal => "Literal"
  | callable => "Callable" | generic => "Generic" | protocol => "Protocol" | self => "Self"
  | classVar => "ClassVar" | final => "Final" | noReturn => "NoReturn" | never => "Never"

def all : List SpecialForm :=
  [any, union, optional, literal, callable, generic, protocol, self, classVar, final, noReturn,
   never]

def ofRef? (ref : ClassRef) : Option SpecialForm :=
  if ref.module == ClassRef.typingModule then all.find? (·.text == ref.name) else none

def of? : Ty → Option SpecialForm
  | .cls ref => ofRef? ref
  | _ => none

/-- What a special form stands for without arguments: `Any`, unless it is a mark. -/
def bare (t : Ty) : Ty :=
  match of? t with
  | none | some self | some generic | some protocol => t
  | some _ => .any

end SpecialForm

namespace Hint

def refused (position : Position) (message : String) : Stop :=
  .ofDiagnostic { code := .unsupported, message, position }

def literalText (kind : ConstantKind) (value : String) : String :=
  match kind with
  | .str | .bytes => Text.quote value
  | _ => value

def literalValue : Expr → Except Stop LiteralValue
  | .constant _ kind value => .ok { ref := kind.classRef, text := literalText kind value }
  | .unary mark .minus operand =>
    match operand with
    | .constant _ kind value =>
      .ok { ref := kind.classRef, text := literalText kind ("-" ++ value) }
    | _ => .error (refused mark.position "Literal[] takes constants only")
  | expr => .error (refused expr.position "Literal[] takes constants only")

variable {m : Type → Type} [Monad m] [MonadExceptOf Stop m]

abbrev inOrder (args : List (m Ty)) : m (List Ty) :=
  args.mapM id

def onlyArg : List Ty → m Ty
  | [] => throw (Stop.crash .missingPart)
  | arg :: _ => return arg

def tupleType (written : List Expr) (args : List (m Ty)) : m Ty := do
  match written, args with
  | [_, .constant _ .ellipsis _], [element, _] => return .tupleOf (← element)
  | [.tuple _ [] _], _ => return .tuple []
  | _, args => return .tuple (← inOrder args)

def subscriptType (position : Position) (head : Ty) (written : List Expr) (args : List (m Ty)) :
    m Ty := do
  match SpecialForm.of? head with
  | some .literal =>
    match written.mapM literalValue with
    | .ok values => return .literal values
    | .error stop => throw stop
  | some .callable | some .any | some .noReturn | some .never => return .any
  | some .optional => return Ty.unionOf [← onlyArg (← inOrder args), .noneType]
  | some .union => return Ty.unionOf (← inOrder args)
  | some .classVar | some .final => onlyArg (← inOrder args)
  | some .generic | some .protocol | some .self | none => do
    match head with
    | .cls ref => do
      if ref == ClassRef.tuple then tupleType written args
      else
        let args ← inOrder args
        match args with
        | [arg] => return if ref == Ty.typeRef then .type arg else .app ref [arg]
        | args => return .app ref args
    | head => throw (refused position s!"{head.text} is not generic")

mutual

/-- The type that an expression is a hint for, with special forms left as they are. -/
def build (named : String → m Ty) (quoted : Mark → String → m Ty) : Expr → m Ty
  | .constant _ .none _ => return .noneType
  | .constant _ .ellipsis _ => return .any
  | .constant mark .str value => quoted mark value
  | .name _ id _ => named id
  | .access mark value attr context => named (Expr.access mark value attr context).dotted
  | .binary _ .bitOr left right => do
    let left ← build named quoted left
    let right ← build named quoted right
    return Ty.unionOf [SpecialForm.bare left, SpecialForm.bare right]
  | .subscript mark value (.tuple _ elements _) _ => do
    let head ← build named quoted value
    subscriptType mark.position head elements (buildEach named quoted elements)
  | .subscript mark value index _ => do
    let head ← build named quoted value
    subscriptType mark.position head [index] [SpecialForm.bare <$> build named quoted index]
  | .list _ _ _ => return .any
  | expr => throw (refused expr.position
      s!"unsupported type expression {Text.quote expr.token.lexeme}")

def buildEach (named : String → m Ty) (quoted : Mark → String → m Ty) : List Expr → List (m Ty)
  | [] => []
  | expr :: rest => (SpecialForm.bare <$> build named quoted expr) :: buildEach named quoted rest

end

def typeWithin (named : String → m Ty) : Nat → Expr → m Ty
  | 0, _ => throw (Stop.crash .endless)
  | depth + 1, expr => do
    let quoted (mark : Mark) (text : String) : m Ty := do
      let parsed := parseExpression text
      match parsed.faults, parsed.tree with
      | [], some inner => typeWithin named depth inner
      | _, _ => throw (refused mark.position s!"invalid forward reference {Text.quote text}")
    return SpecialForm.bare (← build named quoted expr)

/-- Strings inside strings get shorter, so that this depth is only reached by very long ones. -/
def maxQuoted : Nat :=
  1000

def type (named : String → m Ty) (expr : Expr) : m Ty :=
  typeWithin named maxQuoted expr

def typeOrAny (named : String → m Ty) : Option Expr → m (Option Ty × List Fault)
  | none => return (none, [])
  | some expr => do
    match ← attempt (type named expr) with
    | .ok t => return (some t, [])
    | .error fault => return (some .any, [fault])

/-- A parameter as the signature shows it: its kind, and whether it has a default. -/
structure Slot where
  param : Param
  kind : ParamKind
  hasDefault : Bool := false

def slots (params : Parameters) : List Slot :=
  let positional := params.positional.mapIdx fun i param =>
    let kind := if i < params.posOnly.length then .positionalOnly else .positional
    { param, kind, hasDefault := params.defaultsFrom ≤ i : Slot }
  let keywordOnly := params.kwOnly.mapIdx fun i param =>
    { param, kind := .keywordOnly, hasDefault := params.kwDefaults[i]?.join.isSome : Slot }
  positional ++ params.vararg.toList.map ({ param := ·, kind := .varArgs }) ++ keywordOnly ++
    params.kwarg.toList.map ({ param := ·, kind := .varKeywords })

def formals (named : String → m Ty) : List Slot → m (List Formal × List Fault)
  | [] => return ([], [])
  | ⟨param, kind, hasDefault⟩ :: rest => do
    let (type, refusals) ← typeOrAny named param.hint
    let (others, more) ← formals named rest
    return ({ name := param.name, type, kind, hasDefault } :: others, refusals ++ more)

abbrev signature (named : String → m Ty) (definition : FunctionDef) :
    m (Signature × List Fault) := do
  let (params, refusals) ← formals named (slots definition.params)
  let (returns, more) ← typeOrAny named definition.returns
  return ({ params, returns, body := some definition.mark.node }, refusals ++ more)

end Hint

end Stubwise
