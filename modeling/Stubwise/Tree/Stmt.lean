import Stubwise.Tree.Expr

namespace Stubwise

structure ImportName where
  mark : Mark
  name : String
  asName : String
  deriving DecidableEq, Repr, Inhabited

structure WithItem where
  context : Expr
  target : Option Expr

mutual

inductive Stmt where
  | expr (mark : Mark) (value : Expr)
  | assign (mark : Mark) (targets : List Expr) (value : Expr)
  | augAssign (mark : Mark) (target : Expr) (op : BinaryOp) (value : Expr)
  | annAssign (mark : Mark) (target hint : Expr) (value : Option Expr)
  | delete (mark : Mark) (targets : List Expr)
  | pass (mark : Mark)
  | leave (mark : Mark)
  | next (mark : Mark)
  | give (mark : Mark) (value : Option Expr)
  | raise (mark : Mark) (error cause : Option Expr)
  | assert (mark : Mark) (test : Expr) (message : Option Expr)
  | global (mark : Mark) (names : List String)
  | nonlocal (mark : Mark) (names : List String)
  | branch (mark : Mark) (test : Expr) (body orElse : List Stmt)
  | loop (mark : Mark) (test : Expr) (body orElse : List Stmt)
  | each (mark : Mark) (target iter : Expr) (body orElse : List Stmt) (isAsync : Bool)
  | manage (mark : Mark) (items : List WithItem) (body : List Stmt) (isAsync : Bool)
  | guarded (mark : Mark) (body : List Stmt) (handlers : List Handler)
      (orElse finish : List Stmt)
  | function (definition : FunctionDef)
  | class_ (definition : ClassDef)
  | import_ (mark : Mark) (names : List ImportName)
  | importFrom (mark : Mark) (module : String) (names : List ImportName) (level : Nat)

/-- One `except` clause; without a type it catches everything. -/
structure Handler where
  mark : Mark
  type : Option Expr
  name : String
  body : List Stmt

structure FunctionDef where
  mark : Mark
  name : String
  params : Parameters
  body : List Stmt
  decorators : List Expr
  returns : Option Expr
  isAsync : Bool

structure ClassDef where
  mark : Mark
  name : String
  bases : List Expr
  keywords : List NamedArg
  body : List Stmt
  decorators : List Expr

end

instance : Inhabited Stmt :=
  ⟨.pass default⟩

namespace Stmt

def mark : Stmt → Mark
  | expr mark _ | assign mark _ _ | augAssign mark _ _ _ | annAssign mark _ _ _ | delete mark _
  | pass mark | leave mark | next mark | give mark _ | raise mark _ _ | assert mark _ _
  | global mark _ | nonlocal mark _ | branch mark _ _ _ | loop mark _ _ _ | each mark _ _ _ _ _
  | manage mark _ _ _ | guarded mark _ _ _ _ | import_ mark _ | importFrom mark _ _ _ => mark
  | function definition => definition.mark
  | class_ definition => definition.mark

def token (stmt : Stmt) : Token :=
  stmt.mark.token

def position (stmt : Stmt) : Position :=
  stmt.token.position

end Stmt

structure Module where
  file : String := ""
  body : List Stmt := []
  deriving Inhabited

def Module.token (module : Module) : Option Token :=
  module.body.head?.map (·.token)

inductive Node where
  | expr (expr : Expr)
  | stmt (stmt : Stmt)

def Node.mark : Node → Mark
  | expr e => e.mark
  | stmt s => s.mark

abbrev Stmt.ownExprs : Stmt → List Expr
  | expr _ value => [value]
  | assign _ targets value => targets ++ [value]
  | augAssign _ target _ value => [target, value]
  | annAssign _ target hint value => target :: hint :: value.toList
  | delete _ targets => targets
  | give _ value => value.toList
  | raise _ error cause => error.toList ++ cause.toList
  | assert _ test message => test :: message.toList
  | _ => []

end Stubwise
