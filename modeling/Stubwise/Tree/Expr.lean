import Stubwise.Token

namespace Stubwise

structure Mark where
  token : Token
  node : Nat
  deriving DecidableEq, Repr, Inhabited

def Mark.position (mark : Mark) : Position :=
  mark.token.position

inductive Context where
  | load | store | del
  deriving DecidableEq, Repr, Inhabited

def Context.text : Context → String
  | load => "Load"
  | store => "Store"
  | del => "Del"

inductive ConstantKind where
  | int | float | complex | str | bytes | bool | none | ellipsis
  deriving DecidableEq, Repr, Inhabited

inductive BinaryOp where
  | add | sub | mul | matMul | div | floorDiv | mod | pow | shiftLeft | shiftRight
  | bitAnd | bitOr | bitXor
  deriving DecidableEq, Repr, Inhabited

namespace BinaryOp

def text : BinaryOp → String
  | add => "+" | sub => "-" | mul => "*" | matMul => "@" | div => "/" | floorDiv => "//"
  | mod => "%" | pow => "**" | shiftLeft => "<<" | shiftRight => ">>" | bitAnd => "&"
  | bitOr => "|" | bitXor => "^"

def all : List BinaryOp :=
  [add, sub, mul, matMul, div, floorDiv, mod, pow, shiftLeft, shiftRight, bitAnd, bitOr, bitXor]

def ofText? (text : String) : Option BinaryOp :=
  all.find? (·.text == text)

end BinaryOp

inductive UnaryOp where
  | minus | plus | invert | not
  deriving DecidableEq, Repr, Inhabited

def UnaryOp.text : UnaryOp → String
  | minus => "-"
  | plus => "+"
  | invert => "~"
  | not => "not"

inductive BoolOp where
  | and | or
  deriving DecidableEq, Repr, Inhabited

def BoolOp.text : BoolOp → String
  | and => "and"
  | or => "or"

inductive CompareOp where
  | less | greater | lessEqual | greaterEqual | equal | notEqual | isIn | notIn | same | notSame
  deriving DecidableEq, Repr, Inhabited

def CompareOp.text : CompareOp → String
  | less => "<" | greater => ">" | lessEqual => "<=" | greaterEqual => ">=" | equal => "=="
  | notEqual => "!=" | isIn => "in" | notIn => "not in" | same => "is" | notSame => "is not"

mutual

inductive Expr where
  | name (mark : Mark) (id : String) (context : Context)
  | constant (mark : Mark) (kind : ConstantKind) (value : String)
  | formatted (mark : Mark) (values : List Expr)
  | list (mark : Mark) (elements : List Expr) (context : Context)
  | tuple (mark : Mark) (elements : List Expr) (context : Context)
  | set (mark : Mark) (elements : List Expr)
  | dict (mark : Mark) (items : List DictItem)
  | listComp (mark : Mark) (element : Expr) (clauses : List Comprehension)
  | setComp (mark : Mark) (element : Expr) (clauses : List Comprehension)
  | generator (mark : Mark) (element : Expr) (clauses : List Comprehension)
  | dictComp (mark : Mark) (key value : Expr) (clauses : List Comprehension)
  | starred (mark : Mark) (value : Expr) (context : Context)
  | named (mark : Mark) (target : Mark) (id : String) (value : Expr)
  | binary (mark : Mark) (op : BinaryOp) (left right : Expr)
  | unary (mark : Mark) (op : UnaryOp) (operand : Expr)
  | boolean (mark : Mark) (op : BoolOp) (values : List Expr)
  | compare (mark : Mark) (left : Expr) (comparisons : List Comparison)
  | conditional (mark : Mark) (test body orElse : Expr)
  | call (mark : Mark) (callee : Expr) (args : List Expr) (keywords : List NamedArg)
  | access (mark : Mark) (value : Expr) (attr : String) (context : Context)
  | subscript (mark : Mark) (value index : Expr) (context : Context)
  | slice (mark : Mark) (lower upper step : Option Expr)
  | lambda (mark : Mark) (params : Parameters) (body : Expr)
  | yield (mark : Mark) (value : Option Expr) (delegates : Bool)
  | await (mark : Mark) (value : Expr)

structure DictItem where
  key : Option Expr
  value : Expr

structure Comparison where
  op : CompareOp
  operand : Expr

/-- `name=value` in a call or class header; with the empty name it is `**value`. -/
structure NamedArg where
  mark : Mark
  name : String
  value : Expr

structure Comprehension where
  mark : Mark
  target : Expr
  iter : Expr
  conditions : List Expr
  isAsync : Bool

structure Param where
  mark : Mark
  name : String
  hint : Option Expr

/-- A parameter list. The defaults are aligned to the right of the positional parameters; those of
the keyword-only parameters stand beside them, with a gap where there is none. -/
structure Parameters where
  posOnly : List Param
  args : List Param
  vararg : Option Param
  kwOnly : List Param
  kwarg : Option Param
  defaults : List Expr
  kwDefaults : List (Option Expr)

end

instance : Inhabited Expr :=
  ⟨.name default "" .load⟩

/-- Where a list begins that is aligned to the right of so many places. -/
def startOf {α : Type} (count : Nat) (values : List α) : Int :=
  count - values.length

/-- The value at a place, of values that are aligned to the right of so many places. -/
def rightAligned {α : Type} (count : Nat) (values : List α) (i : Nat) : Option α :=
  if startOf count values ≤ i then values[(i - startOf count values).toNat]? else none

namespace Parameters

def empty : Parameters :=
  { posOnly := [], args := [], vararg := none, kwOnly := [], kwarg := none, defaults := [],
    kwDefaults := [] }

def positional (params : Parameters) : List Param :=
  params.posOnly ++ params.args

/-- Where the positional parameters with a default begin. -/
def defaultsFrom (params : Parameters) : Int :=
  startOf params.positional.length params.defaults

def isEmpty (params : Parameters) : Bool :=
  params.positional.isEmpty && params.vararg.isNone && params.kwOnly.isEmpty &&
    params.kwarg.isNone

def expressions (params : Parameters) : List Expr :=
  params.positional.filterMap (·.hint) ++ params.kwOnly.filterMap (·.hint) ++
    (params.vararg.bind (·.hint)).toList ++ (params.kwarg.bind (·.hint)).toList ++
    params.defaults ++ params.kwDefaults.filterMap id

end Parameters

def DictItem.expressions (item : DictItem) : List Expr :=
  item.key.toList ++ [item.value]

def Comprehension.expressions (clause : Comprehension) : List Expr :=
  clause.target :: clause.iter :: clause.conditions

namespace Expr

def mark : Expr → Mark
  | name mark _ _ | constant mark _ _ | formatted mark _ | list mark _ _ | tuple mark _ _
  | set mark _ | dict mark _ | listComp mark _ _ | setComp mark _ _ | generator mark _ _
  | dictComp mark _ _ _ | starred mark _ _ | named mark _ _ _ | binary mark _ _ _
  | unary mark _ _ | boolean mark _ _ | compare mark _ _ | conditional mark _ _ _
  | call mark _ _ _ | access mark _ _ _ | subscript mark _ _ _ | slice mark _ _ _
  | lambda mark _ _ | yield mark _ _ | await mark _ => mark

def token (expr : Expr) : Token :=
  expr.mark.token

def position (expr : Expr) : Position :=
  expr.token.position

abbrev children : Expr → List Expr
  | name .. | constant .. => []
  | formatted _ values => values
  | list _ elements _ | tuple _ elements _ | set _ elements => elements
  | dict _ items => items.flatMap (·.expressions)
  | listComp _ element clauses | setComp _ element clauses | generator _ element clauses =>
    element :: clauses.flatMap (·.expressions)
  | dictComp _ key value clauses => key :: value :: clauses.flatMap (·.expressions)
  | starred _ value _ => [value]
  | named _ target id value => [.name target id .store, value]
  | binary _ _ left right => [left, right]
  | unary _ _ operand => [operand]
  | boolean _ _ values => values
  | compare _ left comparisons => left :: comparisons.map (·.operand)
  | conditional _ test body orElse => [test, body, orElse]
  | call _ callee args keywords => callee :: args ++ keywords.map (·.value)
  | access _ value _ _ => [value]
  | subscript _ value index _ => [value, index]
  | slice _ lower upper step => lower.toList ++ upper.toList ++ step.toList
  | lambda _ params body => params.expressions ++ [body]
  | yield _ value _ => value.toList
  | await _ value => [value]

end Expr

end Stubwise
