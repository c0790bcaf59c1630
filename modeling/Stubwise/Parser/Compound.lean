import Stubwise.Parser.Simple

/-!
Compound statements and blocks. A statement that cannot be read is skipped with the block below it,
and reading goes on behind it.
-/

namespace Stubwise.Parser

abbrev ReadStmts := Step (List Stmt)

def skipBlock : Nat → Nat → Step Unit
  | 0, _ => modify fun state => { state with exhausted := true }
  | turns + 1, level => do
    match (← current).kind with
    | .eof => return
    | .indent =>
      advance
      skipBlock turns (level + 1)
    | .dedent =>
      if level ≤ 1 then return
      advance
      skipBlock turns (level - 1)
    | _ =>
      advance
      skipBlock turns level

abbrev skipCompound : Step Unit := do
  skipLine (← turns)
  if ← aheadIs .indent then
    advance
    skipBlock (← turns) 0

def blockStmts (read : ReadStmts) : Nat → Step (List Stmt)
  | 0 => do
    modify fun state => { state with exhausted := true }
    return []
  | turns + 1 => do
    let kind := (← current).kind
    if kind == .dedent || kind == .eof then return []
    let first ← read
    advance
    return first ++ (← blockStmts read turns)

def block (read : ReadStmts) : Parse (List Stmt) := do
  if ← aheadIs .newline then
    advance
    if ← aheadIs .indent then
      advance
      advance
      blockStmts read (← turns)
    else reject .badIndentation (← ahead) "expected an indented block"
  else
    advance
    let stmts ← simpleStmts
    if stmts.isEmpty then failure else return stmts

abbrev blockAfterColon (read : ReadStmts) : Parse (List Stmt) := do
  expect (.symbol .colon)
  block read

abbrev elseBlock (read : ReadStmts) : Parse (List Stmt) := do
  if ← keywordAhead .else_ then
    advance
    blockAfterColon read
  else return []

def ifStmt (read : ReadStmts) : Nat → Parse Stmt
  | 0 => outOfTurns
  | turns + 1 => do
    let mark ← markCurrent
    advance
    let test ← expression Level.named
    let body ← blockAfterColon read
    if ← keywordAhead .elif_ then
      advance
      return .branch mark test body [← ifStmt read turns]
    else return .branch mark test body (← elseBlock read)

abbrev whileStmt (read : ReadStmts) : Parse Stmt := do
  let mark ← markCurrent
  advance
  let test ← expression Level.named
  let body ← blockAfterColon read
  return .loop mark test body (← elseBlock read)

abbrev forStmt (read : ReadStmts) (isAsync : Bool) : Parse Stmt := do
  let mark ← markCurrent
  advance
  let target ← targetList expression
  expect (.keyword .in_)
  advance
  let iter ← expressionList expression Level.test
  let body ← blockAfterColon read
  return .each mark target iter body (← elseBlock read) isAsync

def withItem : Parse WithItem := do
  advance
  let context ← expression Level.test
  match ← optionalAfter .as_ with
  | some expr => return { context, target := some (← target .store expr) }
  | none => return { context, target := none }

abbrev withStmt (read : ReadStmts) (isAsync : Bool) : Parse Stmt := do
  let mark ← markCurrent
  let items ← itemsBetween (symbolAhead .comma) withItem (← turns)
  return .manage mark items (← blockAfterColon read) isAsync

abbrev caught : Parse (Option Expr × String) := do
  if ← symbolAhead .colon then return (none, "")
  else
    advance
    let type ← expression Level.test
    return (some type, ← asName)

def handler (read : ReadStmts) : Parse Handler := do
  let mark ← markCurrent
  if ← symbolAhead .star then advance
  let (type, name) ← caught
  return { mark, type, name, body := ← blockAfterColon read }

abbrev handlers (read : ReadStmts) : Nat → Parse (List Handler) :=
  itemsWhile (keywordAhead .except_) (do advance; handler read)

abbrev finallyBlock (read : ReadStmts) : Parse (List Stmt) := do
  if ← keywordAhead .finally_ then
    advance
    blockAfterColon read
  else return []

abbrev tryStmt (read : ReadStmts) : Parse Stmt := do
  let mark ← markCurrent
  let body ← blockAfterColon read
  let caught ← handlers read (← turns)
  let orElse ← elseBlock read
  let finish ← finallyBlock read
  if caught.isEmpty && finish.isEmpty then
    reject .unexpectedToken (← ahead) "expected 'except' or 'finally' block"
  return .guarded mark body caught orElse finish

abbrev functionDef (read : ReadStmts) (decorators : List Expr) (isAsync : Bool) : Parse Stmt := do
  expect .ident
  let mark ← markCurrent
  expect (.symbol .openParen)
  let params ← parameters expression .closeParen true
  let returns ← if ← symbolAhead .arrow then some <$> exprAfterNext expression Level.test
    else pure none
  let body ← blockAfterColon read
  return .function { mark, name := mark.token.lexeme, params, body, decorators, returns, isAsync }

abbrev classDef (read : ReadStmts) (decorators : List Expr) : Parse Stmt := do
  expect .ident
  let mark ← markCurrent
  let args ← if ← symbolAhead .openParen then do
      advance
      callArgs expression
    else pure []
  let body ← blockAfterColon read
  return .class_
    { mark, name := mark.token.lexeme, bases := args.filterMap (·.positional?)
      keywords := args.filterMap (·.keyword?), body, decorators }

abbrev decorator : Parse Expr := do
  advance
  let expr ← expression Level.test
  expect .newline
  advance
  return expr

def decorated (read : ReadStmts) : Parse Stmt := do
  let decorators ← itemsWhile (currentIs (.symbol .atSign)) decorator (← turns)
  let token ← current
  match token.kind with
  | .keyword .def_ => functionDef read decorators false
  | .keyword .class_ => classDef read decorators
  | .keyword .async_ =>
    expect (.keyword .def_)
    functionDef read decorators true
  | _ =>
    reject .unexpectedToken token
      ("expected def or class after decorator, got " ++ describe token)

def asyncStmt (read : ReadStmts) : Parse Stmt := do
  advance
  match (← current).kind with
  | .keyword .def_ => functionDef read [] true
  | .keyword .for_ => forStmt read true
  | .keyword .with_ => withStmt read true
  | _ => unexpected (← current)

def compound? (read : ReadStmts) : TokenKind → Option (Parse Stmt)
  | .keyword .def_ => some (functionDef read [] false)
  | .keyword .class_ => some (classDef read [])
  | .symbol .atSign => some (decorated read)
  | .keyword .async_ => some (asyncStmt read)
  | .keyword .if_ => some do ifStmt read (← turns)
  | .keyword .while_ => some (whileStmt read)
  | .keyword .for_ => some (forStmt read false)
  | .keyword .with_ => some (withStmt read false)
  | .keyword .try_ => some (tryStmt read)
  | _ => none

def statementWith (read : ReadStmts) : ReadStmts := do
  modify fun state => { state with statementFaults := 0 }
  let start ← current
  match start.kind with
  | .newline | .symbol .semicolon | .dedent => return []
  | .indent =>
    record .badIndentation start "unexpected indent"
    skipBlock (← turns) 0
    return []
  | kind =>
    match compound? read kind with
    | none => simpleStmts
    | some compound =>
      match ← compound.run with
      | some stmt => return [stmt]
      | none =>
        if !(← abandonBracket start) then skipCompound
        return []

def statementWithin : Nat → ReadStmts
  | 0 => do
    modify fun state => { state with exhausted := true }
    return []
  | fuel + 1 => statementWith (statementWithin fuel)

abbrev statement : ReadStmts := do
  statementWithin (← turns)

end Stubwise.Parser
