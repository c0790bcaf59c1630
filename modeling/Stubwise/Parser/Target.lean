import Stubwise.Tree.Expr

namespace Stubwise

def Expr.targetDescription : Expr → String
  | constant .. => "literal"
  | formatted .. => "f-string expression"
  | call .. => "function call"
  | compare .. => "comparison"
  | conditional .. => "conditional expression"
  | lambda .. => "lambda"
  | named .. => "named expression"
  | dict .. => "dict literal"
  | set .. => "set display"
  | listComp .. => "list comprehension"
  | setComp .. => "set comprehension"
  | dictComp .. => "dict comprehension"
  | generator .. => "generator expression"
  | yield .. => "yield expression"
  | await .. => "await expression"
  | tuple .. => "tuple"
  | access .. => "attribute"
  | subscript .. => "subscript"
  | name _ id _ => "name " ++ id
  | binary .. | unary .. | boolean .. | list .. | starred .. | slice .. => "expression"

def Expr.isSingleTarget : Expr → Bool
  | name .. | access .. | subscript .. => true
  | _ => false

structure TargetFault where
  token : Token
  message : String

def TargetFault.ofExpr (context : Context) (expr : Expr) : TargetFault :=
  let verb := if context == .del then "delete" else "assign to"
  ⟨expr.token, s!"cannot {verb} {expr.targetDescription}"⟩

mutual

def Expr.asTarget (context : Context) : Expr → Except TargetFault Expr
  | .name mark id _ => .ok (.name mark id context)
  | .access mark value attr _ => .ok (.access mark value attr context)
  | .subscript mark value index _ => .ok (.subscript mark value index context)
  | .tuple mark elements _ => do return .tuple mark (← Expr.asTargets context elements) context
  | .list mark elements _ => do return .list mark (← Expr.asTargets context elements) context
  | .starred mark value _ =>
    if context == .del then .error ⟨mark.token, "cannot delete starred"⟩
    else do return .starred mark (← value.asTarget context) context
  | expr => .error (.ofExpr context expr)

def Expr.asTargets (context : Context) : List Expr → Except TargetFault (List Expr)
  | [] => .ok []
  | expr :: rest => do
    let first ← expr.asTarget context
    return first :: (← Expr.asTargets context rest)

end

end Stubwise
