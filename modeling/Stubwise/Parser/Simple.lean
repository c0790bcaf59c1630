import Stubwise.Parser.Expression

namespace Stubwise.Parser

abbrev optionalAfter (keyword : Keyword) : Parse (Option Expr) := do
  if ← keywordAhead keyword then some <$> exprAfterNext expression Level.test else return none

abbrev returnStmt : Parse Stmt := do
  let mark ← markCurrent
  if startsExpression (← ahead).kind then
    advance
    return .give mark (some (← expressionList expression Level.test))
  else return .give mark none

abbrev raiseStmt : Parse Stmt := do
  let mark ← markCurrent
  if startsExpression (← ahead).kind then
    advance
    let error ← expression Level.test
    return .raise mark (some error) (← optionalAfter .from_)
  else return .raise mark none none

abbrev assertStmt : Parse Stmt := do
  let mark ← markCurrent
  advance
  let test ← expression Level.test
  if ← symbolAhead .comma then
    return .assert mark test (some (← exprAfterNext expression Level.test))
  else return .assert mark test none

abbrev identifier : Parse String := do
  expect .ident
  return (← current).lexeme

abbrev nameList : Nat → Parse (List String) :=
  itemsBetween (symbolAhead .comma) identifier

abbrev deleteStmt : Parse Stmt := do
  let mark ← markCurrent
  advance
  let expr ← expressionList expression Level.test
  let targets : List Expr := match expr with
    | .tuple tupleMark elements _ =>
      if tupleMark.token.kind == .symbol .openParen then [expr] else elements
    | _ => [expr]
  return .delete mark (← targets.mapM (target .del))

abbrev assigned : Parse Expr := do
  if ← currentIs (.keyword .yield_) then yieldExpr expression
  else expressionList expression Level.test

abbrev assignedAfterNext : Parse Expr := do
  advance
  advance
  assigned

abbrev assignStmt (first : Expr) : Parse Stmt := do
  let sign ← mark (← ahead)
  let parts := first :: (← itemsWhile (symbolAhead .assign) assignedAfterNext (← turns))
  let targets ← parts.dropLast.mapM (target .store)
  return .assign sign targets (parts.getLastD first)

abbrev augAssignStmt (first : Expr) : Parse Stmt := do
  if !first.isSingleTarget then
    reject .invalidTarget (← ahead)
      (first.targetDescription ++ " is an illegal expression for augmented assignment")
  let written ← target .store first
  advance
  let mark ← markCurrent
  advance
  let value ← assigned
  return .augAssign mark written ((BinaryOp.ofText? mark.token.value).getD .add) value

abbrev annAssignStmt (start : Token) (first : Expr) : Parse Stmt := do
  if !first.isSingleTarget then
    reject .invalidTarget (← ahead)
      ("only single target (not " ++ first.targetDescription ++ ") can be annotated")
  let written ← target .store first
  let hint ← exprAfterNext expression Level.test
  let value ← if ← symbolAhead .assign then some <$> assignedAfterNext else pure none
  return .annAssign (← mark start) written hint value

abbrev expressionStmt : Parse Stmt := do
  let start ← current
  let first ← expressionList expression Level.test
  if ← symbolAhead .assign then assignStmt first
  else if ← aheadIs .augAssign then augAssignStmt first
  else if ← symbolAhead .colon then annAssignStmt start first
  else return .expr (← mark start) first

abbrev dottedName : Parse String := do
  let first := (← current).lexeme
  let rest ← itemsWhile (symbolAhead .dot) (do advance; identifier) (← turns)
  return ".".intercalate (first :: rest)

abbrev asName : Parse String := do
  if ← keywordAhead .as_ then
    advance
    identifier
  else return ""

abbrev importName : Parse ImportName := do
  expect .ident
  let mark ← markCurrent
  let name ← dottedName
  return { mark, name, asName := ← asName }

abbrev importStmt : Parse Stmt := do
  let mark ← markCurrent
  return .import_ mark (← itemsBetween (symbolAhead .comma) importName (← turns))

def fromNames (inParens : Bool) : Nat → Parse (List ImportName)
  | 0 => outOfTurns
  | turns + 1 => do
    expect .ident
    let mark ← markCurrent
    let first : ImportName := { mark, name := mark.token.lexeme, asName := ← asName }
    if ← symbolAhead .comma then
      advance
      if inParens && (← symbolAhead .closeParen) then return [first]
      if !inParens && !(← aheadIs .ident) then
        reject .unexpectedToken (← ahead)
          "trailing comma not allowed without surrounding parentheses"
      return first :: (← fromNames inParens turns)
    else return [first]

abbrev fromModule (level : Nat) : Parse String := do
  if ← aheadIs .ident then
    advance
    dottedName
  else if level == 0 then
    recordMissing .ident
    failure
  else return ""

abbrev importFromStmt : Parse Stmt := do
  let mark ← markCurrent
  let level ← tokensWhile (eitherAhead (.symbol .dot) (.symbol .ellipsis))
    (fun level token => level + token.lexeme.length) (← turns) 0
  let module ← fromModule level
  expect (.keyword .import_)
  if ← symbolAhead .star then
    advance
    let star : ImportName := { mark := ← markCurrent, name := "*", asName := "" }
    return .importFrom mark module [star] level
  else if ← symbolAhead .openParen then
    advance
    let names ← fromNames true (← turns)
    expect (.symbol .closeParen)
    return .importFrom mark module names level
  else return .importFrom mark module (← fromNames false (← turns)) level

def simpleStmt : Parse Stmt := do
  match (← current).kind with
  | .keyword .pass_ => return .pass (← markCurrent)
  | .keyword .break_ => return .leave (← markCurrent)
  | .keyword .continue_ => return .next (← markCurrent)
  | .keyword .return_ => returnStmt
  | .keyword .raise_ => raiseStmt
  | .keyword .global_ => do
    let mark ← markCurrent
    return .global mark (← nameList (← turns))
  | .keyword .nonlocal_ => do
    let mark ← markCurrent
    return .nonlocal mark (← nameList (← turns))
  | .keyword .del_ => deleteStmt
  | .keyword .assert_ => assertStmt
  | .keyword .import_ => importStmt
  | .keyword .from_ => importFromStmt
  | _ => expressionStmt

/-- Leaves a statement that began at `start` and left a bracket open. -/
def abandonBracket (start : Token) : Step Bool := do
  let state ← get
  let line := start.position.line
  let (moved, stream) := state.stream.resync line
  if moved then
    let (ahead, stream) := stream.next
    set { state with
      stream, ahead, current := { kind := .newline, position := { line, col := 0 } } }
  return moved

def skipLine : Nat → Step Unit
  | 0 => modify fun state => { state with exhausted := true }
  | turns + 1 => do
    let kind := (← current).kind
    if kind != .newline && kind != .eof then
      advance
      skipLine turns

/-- The statements of one line, from the current token on. -/
def simpleLine (start : Token) : Nat → Step (List Stmt)
  | 0 => do
    modify fun state => { state with exhausted := true }
    return []
  | turns + 1 => do
    match ← simpleStmt.run with
    | none =>
      if !(← abandonBracket start) then skipLine (← get).budget
      return []
    | some first =>
      if ← symbolAhead .semicolon then
        advance
        if ← aheadIs .newline then
          advance
          return [first]
        else
          advance
          return first :: (← simpleLine start turns)
      else
        if !(← tryExpect .newline) then skipLine (← get).budget
        return [first]

def simpleStmts : Step (List Stmt) := do
  simpleLine (← current) (← turns)

end Stubwise.Parser
