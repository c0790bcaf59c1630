import Stubwise.Infer.Call

/-!
Operators as calls of methods. A binary operator asks its left operand first and then the right one
with the reflected method; unions are split into their arms.
-/

namespace Stubwise

def BinaryOp.methods : BinaryOp → String × String
  | add => ("__add__", "__radd__")
  | sub => ("__sub__", "__rsub__")
  | mul => ("__mul__", "__rmul__")
  | matMul => ("__matmul__", "__rmatmul__")
  | div => ("__truediv__", "__rtruediv__")
  | floorDiv => ("__floordiv__", "__rfloordiv__")
  | mod => ("__mod__", "__rmod__")
  | pow => ("__pow__", "__rpow__")
  | shiftLeft => ("__lshift__", "__rlshift__")
  | shiftRight => ("__rshift__", "__rrshift__")
  | bitAnd => ("__and__", "__rand__")
  | bitOr => ("__or__", "__ror__")
  | bitXor => ("__xor__", "__rxor__")

def BinaryOp.inPlaceMethod : BinaryOp → String
  | add => "__iadd__" | sub => "__isub__" | mul => "__imul__" | matMul => "__imatmul__"
  | div => "__itruediv__" | floorDiv => "__ifloordiv__" | mod => "__imod__" | pow => "__ipow__"
  | shiftLeft => "__ilshift__" | shiftRight => "__irshift__" | bitAnd => "__iand__"
  | bitOr => "__ior__" | bitXor => "__ixor__"

def UnaryOp.method? : UnaryOp → Option String
  | minus => some "__neg__"
  | plus => some "__pos__"
  | invert => some "__invert__"
  | not => none

def CompareOp.method? : CompareOp → Option String
  | less => some "__lt__"
  | lessEqual => some "__le__"
  | greater => some "__gt__"
  | greaterEqual => some "__ge__"
  | equal => some "__eq__"
  | notEqual => some "__ne__"
  | isIn | notIn | same | notSame => none

inductive Asked where
  | given (t : Ty)
  | declined
  | failed (fault : Fault)

namespace Engine

def accepts (engine : Engine) (value arg : Ty) : Infer Bool :=
  match value with
  | .method receiver owner _ function =>
    Lattice.anyOf (fun signature => return (← engine.matchSignature function signature
      (some { value := receiver, owner }) [arg] []).isSome) function.overloads
  | _ => return true

abbrev ask (engine : Engine) (operand : Ty) (method : String) (other : Ty) : Infer Asked := do
  match ← attempt (engine.attributeOf operand method) with
  | .error fault => return .failed fault
  | .ok value => do
    if ← engine.accepts value other then
      match ← attempt (engine.call value [other] []) with
      | .ok t => return .given t
      | .error fault => return .failed fault
    else return .declined

abbrev unsupportedOperands (op : BinaryOp) (left right : Ty) : Stop :=
  .fault (.coded .attributeNotFound
    s!"unsupported operand types for {op.text}: {left.text} and {right.text}")

def Asked.otherFailure? : Asked → Option Fault
  | .failed fault => if fault.lacksAttribute then none else some fault
  | _ => none

def binaryPlain (engine : Engine) (op : BinaryOp) (left right : Ty) : Infer Ty := do
  if left.isAny || right.isAny then return .any
  let first ← engine.ask left op.methods.1 right
  match first with
  | .given t => return t
  | _ => do
    let second ← engine.ask right op.methods.2 left
    match second with
    | .given t => return t
    | _ =>
      match Asked.otherFailure? second, Asked.otherFailure? first with
      | some fault, _ => throw (.fault fault)
      | none, some fault => throw (.fault fault)
      | none, none => throw (unsupportedOperands op left right)

def binaryRight (engine : Engine) (op : BinaryOp) (left right : Ty) : Infer Ty := do
  match right with
  | .union arms => do
    if left.isAny then return .any
    engine.world.joinAll (← arms.mapM (engine.binaryPlain op left))
  | right => engine.binaryPlain op left right

def binary (engine : Engine) (op : BinaryOp) (left right : Ty) : Infer Ty := do
  match left with
  | .union arms => do
    if right.isAny then return .any
    engine.world.joinAll (← arms.mapM (engine.binaryRight op · right))
  | left => engine.binaryRight op left right

/-- The result of an augmented assignment. -/
abbrev inPlace (engine : Engine) (op : BinaryOp) (left right : Ty) : Infer Ty := do
  if left.isAny then return .any
  match ← attempt (engine.callMethod left op.inPlaceMethod [right]) with
  | .ok t => return t
  | .error _ => engine.binary op left right

abbrev unaryArm (engine : Engine) (op : UnaryOp) (method : String) (arm : Ty) : Infer Ty := do
  match ← attempt (engine.callMethod arm method []) with
  | .ok t => return t
  | .error fault =>
    if fault.lacksAttribute then
      throw (.fault (fault.wrapped .attributeNotFound
        s!"bad operand type for unary {op.text}: {arm.text}"))
    else throw (.fault fault)

def unary (engine : Engine) (op : UnaryOp) (operand : Ty) : Infer Ty := do
  match op.method? with
  | none => return .boolType
  | some method => do
    if operand.isAny then return .any
    engine.world.joinAll (← operand.arms.mapM (engine.unaryArm op method))

/-- The result of one comparison. -/
def comparison (engine : Engine) (op : CompareOp) (left right : Ty) : Infer Ty := do
  match op.method? with
  | none => return .boolType
  | some method => do
    if left.isAny then return .any
    match ← attempt (engine.callMethod left method [right]) with
    | .ok t => return t
    | .error _ => return .boolType

end Engine

end Stubwise
