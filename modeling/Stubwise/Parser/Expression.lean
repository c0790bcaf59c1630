import Stubwise.Parser.Operand

/-!
Expressions by operator precedence. An operand is extended by the operators behind it as long as
they bind tighter than the place where the expression stands.
-/

namespace Stubwise.Parser

def binaryOp? : Symbol → Option BinaryOp
  | .plus => some .add
  | .minus => some .sub
  | .star => some .mul
  | .atSign => some .matMul
  | .slash => some .div
  | .doubleSlash => some .floorDiv
  | .percent => some .mod
  | .power => some .pow
  | .shiftLeft => some .shiftLeft
  | .shiftRight => some .shiftRight
  | .ampersand => some .bitAnd
  | .pipe => some .bitOr
  | .caret => some .bitXor
  | _ => none

def compareOp? : TokenKind → Option CompareOp
  | .symbol .less => some .less
  | .symbol .greater => some .greater
  | .symbol .lessEqual => some .lessEqual
  | .symbol .greaterEqual => some .greaterEqual
  | .symbol .equal => some .equal
  | .symbol .notEqual => some .notEqual
  | .keyword .in_ => some .isIn
  | .keyword .is_ => some .same
  | _ => none

/-- How tightly a token binds what stands before it; `Level.named` for tokens that do not. -/
def bindingLevel (kind : TokenKind) : Level :=
  match kind with
  | .keyword .if_ => Level.conditional
  | .keyword .or_ => Level.or
  | .keyword .and_ => Level.and
  | .symbol .openParen | .symbol .openBracket | .symbol .dot => Level.atom
  | _ =>
    if (compareOp? kind).isSome then Level.compare
    else match kind with
      | .symbol symbol => ((binaryOp? symbol).map (·.level)).getD Level.named
      | _ => Level.named

/-- How tightly the token ahead binds. -/
abbrev levelAhead : Step Level := do
  let kind := (← ahead).kind
  if kind == .keyword .not_ then
    return if (← kindAfterAhead) == .keyword .in_ then Level.compare else Level.named
  else return bindingLevel kind

abbrev binaryExpr (read : ReadExpr) (op : BinaryOp) (left : Expr) : Parse Expr := do
  let mark ← markCurrent
  advance
  return .binary mark op left (← read (if op == .pow then Level.unary else op.level))

abbrev booleanOperands (read : ReadExpr) (op : BoolOp) (kind : TokenKind) :
    Nat → Parse (List Expr) :=
  itemsBetween (aheadIs kind) do
    advance
    read op.level

abbrev booleanExpr (read : ReadExpr) (op : BoolOp) (left : Expr) : Parse Expr := do
  let mark ← markCurrent
  return .boolean mark op (left :: (← booleanOperands read op mark.token.kind (← turns)))

def compareOperator : Parse CompareOp := do
  match (← current).kind with
  | .keyword .not_ =>
    expect (.keyword .in_)
    return .notIn
  | .keyword .is_ =>
    if ← keywordAhead .not_ then
      advance
      return .notSame
    else return .same
  | kind => return (compareOp? kind).getD .equal

abbrev comparisonAhead : Step Bool := do
  return (← levelAhead) == Level.compare

abbrev comparisons (read : ReadExpr) : Nat → Parse (List Comparison) :=
  itemsBetween comparisonAhead do
    let op ← compareOperator
    advance
    return { op, operand := ← read Level.compare }

abbrev compareExpr (read : ReadExpr) (left : Expr) : Parse Expr := do
  let mark ← markCurrent
  return .compare mark left (← comparisons read (← turns))

abbrev conditionalExpr (read : ReadExpr) (body : Expr) : Parse Expr := do
  let mark ← markCurrent
  advance
  let test ← read Level.conditional
  expect (.keyword .else_)
  advance
  return .conditional mark test body (← read Level.test)

inductive CallArg where
  | positional (value : Expr)
  | keyword (arg : NamedArg)

def CallArg.positional? : CallArg → Option Expr
  | positional value => some value
  | keyword _ => none

def CallArg.keyword? : CallArg → Option NamedArg
  | positional _ => none
  | keyword arg => some arg

abbrev callArg (read : ReadExpr) : Parse CallArg := do
  if ← currentIs (.symbol .power) then
    let mark ← markCurrent
    advance
    return .keyword { mark, name := "", value := ← read Level.test }
  else if (← currentIs .ident) && (← symbolAhead .assign) then
    let mark ← markCurrent
    return .keyword { mark, name := mark.token.lexeme, value := ← exprAfterNext read Level.test }
  else
    let value ← read Level.named
    if ← clauseAhead then
      let clauses ← clauses read (← turns)
      return .positional (.generator (← mark value.token) value clauses)
    else return .positional value

abbrev callArgs (read : ReadExpr) : Parse (List CallArg) := do
  if ← symbolAhead .closeParen then
    advance
    return []
  else
    advance
    let first ← callArg read
    let rest ← itemsAfterCommas (· == .symbol .closeParen) (callArg read) (← turns)
    expect (.symbol .closeParen)
    return first :: rest

abbrev callExpr (read : ReadExpr) (callee : Expr) : Parse Expr := do
  let mark ← markCurrent
  let args ← callArgs read
  return .call mark callee (args.filterMap (·.positional?)) (args.filterMap (·.keyword?))

abbrev optionalBound (read : ReadExpr) : Parse (Option Expr) := do
  if startsExpression (← ahead).kind then
    advance
    return some (← read Level.test)
  else return none

abbrev sliceAfter (read : ReadExpr) (lower : Option Expr) : Parse Expr := do
  let mark ← markCurrent
  let upper ← optionalBound read
  if ← symbolAhead .colon then
    advance
    return .slice mark lower upper (← optionalBound read)
  else return .slice mark lower upper none

abbrev sliceItem (read : ReadExpr) : Parse Expr := do
  if ← currentIs (.symbol .colon) then sliceAfter read none
  else
    let lower ← read Level.named
    if ← symbolAhead .colon then
      advance
      sliceAfter read (some lower)
    else return lower

abbrev subscriptExpr (read : ReadExpr) (value : Expr) : Parse Expr := do
  let bracket ← markCurrent
  advance
  let start ← current
  let first ← sliceItem read
  let index ← if ← symbolAhead .comma then do
      let rest ← itemsAfterCommas (· == .symbol .closeBracket) (sliceItem read) (← turns)
      pure (Expr.tuple (← mark start) (first :: rest) .load)
    else pure first
  expect (.symbol .closeBracket)
  return .subscript bracket value index .load

abbrev accessExpr (value : Expr) : Parse Expr := do
  expect .ident
  let mark ← markCurrent
  return .access mark value mark.token.lexeme .load

def extend (read : ReadExpr) (left : Expr) : Parse Expr := do
  let kind := (← current).kind
  match kind with
  | .keyword .if_ => conditionalExpr read left
  | .keyword .or_ => booleanExpr read .or left
  | .keyword .and_ => booleanExpr read .and left
  | .symbol .openParen => callExpr read left
  | .symbol .openBracket => subscriptExpr read left
  | .symbol .dot => accessExpr left
  | .symbol symbol =>
    match binaryOp? symbol with
    | some op => binaryExpr read op left
    | none => compareExpr read left
  | _ => compareExpr read left

def namedExpr (read : ReadExpr) (left : Expr) : Parse Expr := do
  match left with
  | .name target id _ =>
    advance
    let mark ← markCurrent
    advance
    return .named mark target id (← read Level.test)
  | _ =>
    reject .invalidTarget (← ahead)
      ("cannot use assignment expression with " ++ left.targetDescription)

/-- Extends an expression while the token ahead binds tighter than `level`. -/
def extendAll (read : ReadExpr) (level : Level) : Nat → Expr → Parse Expr
  | 0, _ => outOfTurns
  | turns + 1, left => do
    if level < (← levelAhead) then
      advance
      let left ← extend read left
      extendAll read level turns left
    else if level == Level.named && (← symbolAhead .walrus) then namedExpr read left
    else return left

/-- Counts one more open expression. -/
def enter : Parse Unit := do
  modify fun state => { state with depth := state.depth + 1 }
  if maxDepth < (← get).depth then reject .nestingTooDeep (← current) "nesting too deep"

def leave : Step Unit :=
  modify fun state => { state with depth := state.depth - 1 }

def andLeave {α : Type} (step : Parse α) : Parse α := do
  let result ← OptionT.lift step.run
  leave
  match result with
  | some value => return value
  | none => failure

abbrev expressionWith (read : ReadExpr) (level : Level) : Parse Expr := do
  enter
  andLeave do
    let first ← operand read
    extendAll read level (← turns) first

/-- Reads an expression. The fuel bounds how deep expressions nest; the parser refuses deep nesting
before the fuel is used up. -/
def expressionWithin : Nat → ReadExpr
  | 0 => fun _ => outOfTurns
  | fuel + 1 => expressionWith (expressionWithin fuel)

abbrev expression : ReadExpr :=
  expressionWithin (maxDepth + 1)

end Stubwise.Parser
