import Stubwise.Text.Find
import Stubwise.Tree.Stmt

namespace Stubwise

def lastSegment (dotted : String) : String :=
  (Text.split '.' dotted).getLastD ""

namespace Expr

def dotted : Expr → String
  | name _ id _ => id
  | access _ value attr _ =>
    let head := value.dotted
    if head.isEmpty then "" else head ++ "." ++ attr
  | _ => ""

def dottedTail : Expr → String
  | call _ callee _ _ => lastSegment callee.dotted
  | expr => lastSegment expr.dotted

end Expr

def FunctionDef.decoratorNames (definition : FunctionDef) : List String :=
  definition.decorators.map (·.dottedTail)

end Stubwise
