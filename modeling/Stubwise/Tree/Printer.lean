import Stubwise.Text.Find
import Stubwise.Text.Quoted
import Stubwise.Tree.Stmt

/-!
Trees as source text. An expression is put in parentheses only where its place needs them, which
the levels of binding decide; the parser reads with the same levels.
-/

namespace Stubwise

abbrev Level := Nat

namespace Level

abbrev lowest : Level := 0
abbrev named : Level := 1
abbrev test : Level := 2
abbrev conditional : Level := 3
abbrev or : Level := 4
abbrev and : Level := 5
abbrev not : Level := 6
abbrev compare : Level := 7
abbrev bitOr : Level := 8
abbrev bitXor : Level := 9
abbrev bitAnd : Level := 10
abbrev shift : Level := 11
abbrev sum : Level := 12
abbrev product : Level := 13
abbrev unary : Level := 14
abbrev power : Level := 15
abbrev await : Level := 16
abbrev atom : Level := 17

end Level

def BinaryOp.level : BinaryOp → Level
  | bitOr => Level.bitOr
  | bitXor => Level.bitXor
  | bitAnd => Level.bitAnd
  | shiftLeft | shiftRight => Level.shift
  | add | sub => Level.sum
  | mul | matMul | div | floorDiv | mod => Level.product
  | pow => Level.power

def BoolOp.level : BoolOp → Level
  | or => Level.or
  | and => Level.and

def UnaryOp.level : UnaryOp → Level
  | not => Level.not
  | _ => Level.unary

def constantText (kind : ConstantKind) (value : String) : String :=
  match kind with
  | .str => Text.quote value
  | .bytes => "b" ++ Text.quote value
  | .ellipsis => "..."
  | _ => value

namespace Expr

def isParenthesized (mark : Mark) : Bool :=
  mark.token.lexeme == "("

def level : Expr → Level
  | named .. | yield .. => Level.named
  | lambda .. => Level.test
  | conditional .. => Level.conditional
  | boolean _ op _ => op.level
  | unary _ op _ => op.level
  | compare .. => Level.compare
  | binary _ op _ _ => op.level
  | await .. => Level.await
  | starred .. => Level.bitOr
  | tuple mark elements _ =>
    if !elements.isEmpty && !isParenthesized mark then Level.named else Level.atom
  | _ => Level.atom

/-- Whether an expression needs parentheses at a place that binds with level `outer`. Powers
associate to the right, all else to the left. -/
def needsParens (expr : Expr) (outer : Level) (isRight : Bool) : Bool :=
  if expr.level < outer then true
  else if expr.level == outer && expr.level != Level.atom then
    match expr with
    | binary _ .pow _ _ => !isRight
    | _ => isRight
  else false

def enclose (expr : Expr) (outer : Level) (isRight : Bool) (text : String) : String :=
  if expr.needsParens outer isRight then "(" ++ text ++ ")" else text

def commaList (texts : List String) : String :=
  ", ".intercalate texts

def tupleText (mark : Mark) (elements : List String) : String :=
  match elements with
  | [] => "()"
  | [element] => if isParenthesized mark then "(" ++ element ++ ",)" else element ++ ","
  | _ => if isParenthesized mark then "(" ++ commaList elements ++ ")" else commaList elements

/-- The text of a parameter with its default, which stands behind the sign that goes with the
parameter. -/
def withDefault (param : String × String) (default : Option String) : String :=
  param.1 ++ (default.map (param.2 ++ ·)).getD ""

def positionalTexts (params : List (String × String)) (defaults : List String) : List String :=
  params.mapIdx fun i param => withDefault param (rightAligned params.length defaults i)

def keywordOnlyTexts (params : List (String × String)) (defaults : List (Option String)) :
    List String :=
  params.mapIdx fun i param => withDefault param defaults[i]?.join

def parametersText (posOnly args : List (String × String)) (vararg : Option (String × String))
    (kwOnly : List (String × String)) (kwarg : Option (String × String)) (defaults : List String)
    (kwDefaults : List (Option String)) : String :=
  let positional := positionalTexts (posOnly ++ args) defaults
  let slash := if posOnly.isEmpty then [] else ["/"]
  let star := match vararg with
    | some param => ["*" ++ param.1]
    | none => if kwOnly.isEmpty then [] else ["*"]
  commaList (positional.take posOnly.length ++ slash ++ positional.drop posOnly.length ++ star ++
    keywordOnlyTexts kwOnly kwDefaults ++ (kwarg.map ("**" ++ ·.1)).toList)

def inBraces (text : String) : String :=
  "\x7b" ++ text ++ "\x7d"

mutual

def text : Expr → String
  | name _ id _ => id
  | constant _ kind value => constantText kind value
  | formatted mark _ => mark.token.lexeme
  | list _ elements _ => "[" ++ commaList (texts Level.named false elements) ++ "]"
  | tuple mark elements _ => tupleText mark (texts Level.named false elements)
  | set _ elements => inBraces (commaList (texts Level.named false elements))
  | dict _ items => inBraces (commaList (itemTexts items))
  | listComp _ element clauses =>
    "[" ++ enclose element Level.named false element.text ++ clausesText clauses ++ "]"
  | setComp _ element clauses =>
    inBraces (enclose element Level.named false element.text ++ clausesText clauses)
  | generator _ element clauses =>
    "(" ++ enclose element Level.named false element.text ++ clausesText clauses ++ ")"
  | dictComp _ key value clauses =>
    inBraces (enclose key Level.test false key.text ++ ": " ++
      enclose value Level.test false value.text ++ clausesText clauses)
  | starred _ value _ => "*" ++ enclose value Level.bitOr false value.text
  | named _ _ id value => id ++ " := " ++ enclose value Level.test false value.text
  | binary _ op left right =>
    enclose left op.level false left.text ++ " " ++ op.text ++ " " ++
      enclose right op.level true right.text
  | unary _ op operand =>
    op.text ++ (if op == .not then " " else "") ++ enclose operand op.level false operand.text
  | boolean _ _ [] => ""
  | boolean _ op (first :: rest) =>
    (" " ++ op.text ++ " ").intercalate
      (enclose first op.level false first.text :: texts op.level true rest)
  | compare _ left comparisons =>
    enclose left Level.bitOr false left.text ++ comparisonsText comparisons
  | conditional _ test body orElse =>
    enclose body Level.or false body.text ++ " if " ++ enclose test Level.or false test.text ++
      " else " ++ enclose orElse Level.conditional false orElse.text
  | call _ callee args keywords =>
    enclose callee Level.atom false callee.text ++ "(" ++
      commaList (texts Level.named false args ++ keywordTexts keywords) ++ ")"
  | access _ value attr _ => enclose value Level.atom false value.text ++ "." ++ attr
  | subscript _ value (tuple _ (first :: rest) _) _ =>
    enclose value Level.atom false value.text ++ "[" ++
      commaList (enclose first Level.named false first.text :: texts Level.named false rest)
      ++ "]"
  | subscript _ value index _ =>
    enclose value Level.atom false value.text ++ "[" ++ index.text ++ "]"
  | slice _ lower upper step =>
    (optionText lower).getD "" ++ ":" ++ (optionText upper).getD "" ++
      ((optionText step).map (":" ++ ·)).getD ""
  | lambda _ ⟨posOnly, args, vararg, kwOnly, kwarg, defaults, kwDefaults⟩ body =>
    let params := parametersText (paramTexts false posOnly) (paramTexts false args)
      (optionParamText false vararg) (paramTexts false kwOnly) (optionParamText false kwarg)
      (texts Level.test false defaults) (optionTexts kwDefaults)
    "lambda" ++ (if params.isEmpty then "" else " " ++ params) ++ ": " ++
      enclose body Level.test false body.text
  | yield _ value delegates =>
    "yield" ++ (if delegates then " from" else "") ++ yieldedText value
  | await _ value => "await " ++ enclose value Level.await false value.text

def texts (outer : Level) (isRight : Bool) : List Expr → List String
  | [] => []
  | expr :: rest => enclose expr outer isRight expr.text :: texts outer isRight rest

def optionText : Option Expr → Option String
  | none => none
  | some expr => some (enclose expr Level.test false expr.text)

def optionTexts : List (Option Expr) → List (Option String)
  | [] => []
  | expr :: rest => optionText expr :: optionTexts rest

def yieldedText : Option Expr → String
  | none => ""
  | some expr => " " ++ enclose expr Level.named false expr.text

def itemTexts : List DictItem → List String
  | [] => []
  | ⟨none, value⟩ :: rest => ("**" ++ enclose value Level.bitOr false value.text) :: itemTexts rest
  | ⟨some key, value⟩ :: rest =>
    (enclose key Level.test false key.text ++ ": " ++
      enclose value Level.test false value.text) :: itemTexts rest

def comparisonsText : List Comparison → String
  | [] => ""
  | ⟨op, operand⟩ :: rest =>
    " " ++ op.text ++ " " ++ enclose operand Level.bitOr false operand.text ++
      comparisonsText rest

def keywordTexts : List NamedArg → List String
  | [] => []
  | ⟨_, keyword, value⟩ :: rest =>
    ((if keyword.isEmpty then "**" else keyword ++ "=") ++ enclose value Level.test false value.text)
      :: keywordTexts rest

def conditionsText : List Expr → String
  | [] => ""
  | condition :: rest =>
    " if " ++ enclose condition Level.or false condition.text ++ conditionsText rest

def clausesText : List Comprehension → String
  | [] => ""
  | ⟨_, target, iter, conditions, isAsync⟩ :: rest =>
    (if isAsync then " async" else "") ++ " for " ++ target.text ++ " in " ++
      enclose iter Level.or false iter.text ++ conditionsText conditions ++ clausesText rest

/-- The text of a parameter, and the sign before its default. -/
def paramText (hints : Bool) : Param → String × String
  | ⟨_, id, hint⟩ =>
    let hintText := if hints then (optionText hint).map (": " ++ ·) else none
    (id ++ hintText.getD "", if hintText.isSome then " = " else "=")

def paramTexts (hints : Bool) : List Param → List (String × String)
  | [] => []
  | param :: rest => paramText hints param :: paramTexts hints rest

def optionParamText (hints : Bool) : Option Param → Option (String × String)
  | none => none
  | some param => some (paramText hints param)

end

def after (intro : String) (expr : Option Expr) : String :=
  (expr.map fun expr => intro ++ expr.text).getD ""

end Expr

def Parameters.text (params : Parameters) : String :=
  Expr.parametersText (Expr.paramTexts true params.posOnly) (Expr.paramTexts true params.args)
    (Expr.optionParamText true params.vararg) (Expr.paramTexts true params.kwOnly)
    (Expr.optionParamText true params.kwarg) (Expr.texts Level.test false params.defaults)
    (Expr.optionTexts params.kwDefaults)

def ImportName.text (imported : ImportName) : String :=
  imported.name ++ (if imported.asName.isEmpty then "" else " as " ++ imported.asName)

def WithItem.text (item : WithItem) : String :=
  item.context.text ++ Expr.after " as " item.target

def asyncText (isAsync : Bool) : String :=
  if isAsync then "async " else ""

def FunctionDef.header (definition : FunctionDef) : String :=
  asyncText definition.isAsync ++ "def " ++ definition.name ++ "(" ++ definition.params.text ++ ")"
    ++ Expr.after " -> " definition.returns

def ClassDef.header (definition : ClassDef) : String :=
  let args := Expr.texts Level.named false definition.bases ++
    Expr.keywordTexts definition.keywords
  "class " ++ definition.name ++ (if args.isEmpty then "" else "(" ++ Expr.commaList args ++ ")")

def Handler.header (handler : Handler) : String :=
  match handler.type with
  | none => "except"
  | some type =>
    "except " ++ type.text ++ (if handler.name.isEmpty then "" else " as " ++ handler.name)

namespace Stmt

def header : Stmt → String
  | expr _ value => value.text
  | assign _ targets value => String.join (targets.map fun t => t.text ++ " = ") ++ value.text
  | augAssign _ target op value => target.text ++ " " ++ op.text ++ "= " ++ value.text
  | annAssign _ target hint value =>
    target.text ++ ": " ++ hint.text ++ Expr.after " = " value
  | delete _ targets => "del " ++ Expr.commaList (Expr.texts Level.named false targets)
  | pass _ => "pass"
  | leave _ => "break"
  | next _ => "continue"
  | give _ value => "return" ++ Expr.after " " value
  | raise _ error cause => "raise" ++ Expr.after " " error ++ Expr.after " from " cause
  | assert _ test message => "assert " ++ test.text ++ Expr.after ", " message
  | global _ names => "global " ++ Expr.commaList names
  | nonlocal _ names => "nonlocal " ++ Expr.commaList names
  | import_ _ names => "import " ++ Expr.commaList (names.map (·.text))
  | importFrom _ module names level =>
    "from " ++ String.ofList (List.replicate level '.') ++ module ++ " import " ++
      Expr.commaList (names.map (·.text))
  | branch _ test _ _ => "if " ++ test.text ++ ":"
  | loop _ test _ _ => "while " ++ test.text ++ ":"
  | each _ target iter _ _ isAsync =>
    asyncText isAsync ++ "for " ++ target.text ++ " in " ++ iter.text
  | manage _ items _ isAsync =>
    asyncText isAsync ++ "with " ++ Expr.commaList (items.map (·.text))
  | guarded .. => "try:"
  | function definition => definition.header
  | class_ definition => definition.header

def indentText (indent : Nat) : String :=
  String.ofList (List.replicate (4 * indent) ' ')

def decoratorLines (indent : Nat) (decorators : List Expr) : String :=
  String.join (decorators.map fun d => "@" ++ d.text ++ "\n" ++ indentText indent)

mutual

/-- The lines of a statement. An `elif` is the conditional in the `else` part of another one. -/
def textAt (indent : Nat) (isElif : Bool) : Stmt → String
  | branch _ test body orElse =>
    indentText indent ++ (if isElif then "elif " else "if ") ++ test.text ++ ":\n" ++
      blockText indent body ++ elseText indent true orElse
  | loop _ test body orElse =>
    indentText indent ++ "while " ++ test.text ++ ":\n" ++ blockText indent body ++
      elseText indent false orElse
  | each mark target iter body orElse isAsync =>
    indentText indent ++ header (each mark target iter [] [] isAsync) ++ ":\n" ++
      blockText indent body ++ elseText indent false orElse
  | manage mark items body isAsync =>
    indentText indent ++ header (manage mark items [] isAsync) ++ ":\n" ++ blockText indent body
  | guarded _ body handlers orElse finish =>
    indentText indent ++ "try:\n" ++ blockText indent body ++ handlersText indent handlers ++
      elseText indent false orElse ++ finishText indent finish
  | function ⟨mark, name, params, body, decorators, returns, isAsync⟩ =>
    indentText indent ++ decoratorLines indent decorators ++
      FunctionDef.header ⟨mark, name, params, [], [], returns, isAsync⟩ ++ ":\n" ++
      blockText indent body
  | class_ ⟨mark, name, bases, keywords, body, decorators⟩ =>
    indentText indent ++ decoratorLines indent decorators ++
      ClassDef.header ⟨mark, name, bases, keywords, [], []⟩ ++ ":\n" ++ blockText indent body
  | stmt => indentText indent ++ header stmt ++ "\n"

def linesAt (indent : Nat) : List Stmt → String
  | [] => ""
  | stmt :: rest => textAt indent false stmt ++ linesAt indent rest

def blockText (indent : Nat) : List Stmt → String
  | [] => indentText (indent + 1) ++ "pass\n"
  | stmt :: rest => textAt (indent + 1) false stmt ++ linesAt (indent + 1) rest

/-- The `else` part. After a conditional a single conditional in it is an `elif`. -/
def elseText (indent : Nat) (mayChain : Bool) : List Stmt → String
  | [] => ""
  | [branch mark test body orElse] =>
    if mayChain then textAt indent true (branch mark test body orElse)
    else
      indentText indent ++ "else:\n" ++
        textAt (indent + 1) false (branch mark test body orElse)
  | stmt :: rest =>
    indentText indent ++ "else:\n" ++ textAt (indent + 1) false stmt ++
      linesAt (indent + 1) rest

def finishText (indent : Nat) : List Stmt → String
  | [] => ""
  | stmt :: rest =>
    indentText indent ++ "finally:\n" ++ textAt (indent + 1) false stmt ++
      linesAt (indent + 1) rest

def handlersText (indent : Nat) : List Handler → String
  | [] => ""
  | ⟨mark, type, name, body⟩ :: rest =>
    indentText indent ++ Handler.header ⟨mark, type, name, []⟩ ++ ":\n" ++
      blockText indent body ++ handlersText indent rest

end

end Stmt

def Module.text (module : Module) : String :=
  Stmt.linesAt 0 module.body

def Module.source (module : Module) : String :=
  String.ofList (Text.dropEndWhile (· == '\n') module.text.toList)

def Node.text : Node → String
  | expr e => e.text
  | stmt s => s.header

end Stubwise
