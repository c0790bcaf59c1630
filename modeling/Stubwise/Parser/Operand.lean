import Stubwise.Parser.Field
import Stubwise.Parser.Params
import Stubwise.Parser.Target

namespace Stubwise.Parser

def startsExpression : TokenKind → Bool
  | .ident | .int | .float | .imag | .string | .fstring | .bytes => true
  | .keyword .true_ | .keyword .false_ | .keyword .none_ | .keyword .not_ | .keyword .lambda_
  | .keyword .await_ | .keyword .yield_ => true
  | .symbol .ellipsis | .symbol .openParen | .symbol .openBracket | .symbol .openBrace
  | .symbol .minus | .symbol .plus | .symbol .tilde | .symbol .star => true
  | _ => false

def endsExpressionList : TokenKind → Bool
  | .newline | .eof | .augAssign => true
  | .symbol .semicolon | .symbol .assign | .symbol .closeParen | .symbol .closeBracket
  | .symbol .closeBrace | .symbol .colon => true
  | .keyword .in_ => true
  | _ => false

def target (context : Context) (expr : Expr) : Parse Expr :=
  match expr.asTarget context with
  | .ok expr => pure expr
  | .error fault => reject .invalidTarget fault.token fault.message

/-- `a, b, *c`. A single expression without a comma is itself, otherwise the expressions form a
tuple. -/
abbrev expressionList (read : ReadExpr) (level : Level) : Parse Expr := do
  let start ← current
  let first ← read level
  if ← symbolAhead .comma then
    let rest ← itemsAfterCommas endsExpressionList (read level) (← turns)
    return .tuple (← mark start) (first :: rest) .load
  else return first

abbrev targetList (read : ReadExpr) : Parse Expr := do
  let start ← current
  let first ← read Level.compare
  let expr ← if ← symbolAhead .comma then do
      let rest ← itemsAfterCommas (· == .keyword .in_) (read Level.compare) (← turns)
      pure (Expr.tuple (← mark start) (first :: rest) .load)
    else pure first
  target .store expr

def clauseAhead : Step Bool := do
  if ← keywordAhead .for_ then return true
  else if ← keywordAhead .async_ then return (← kindAfterAhead) == .keyword .for_
  else return false

abbrev conditions (read : ReadExpr) : Nat → Parse (List Expr) :=
  itemsWhile (keywordAhead .if_) (exprAfterNext read Level.conditional)

/-- One `for` clause, which starts with the token ahead. -/
def clause (read : ReadExpr) : Parse Comprehension := do
  advance
  let isAsync ← currentIs (.keyword .async_)
  if isAsync then advance
  let mark ← markCurrent
  advance
  let target ← targetList read
  expect (.keyword .in_)
  advance
  let iter ← read Level.conditional
  return { mark, target, iter, conditions := ← conditions read (← turns), isAsync }

abbrev clauses (read : ReadExpr) : Nat → Parse (List Comprehension) :=
  itemsWhile clauseAhead (clause read)

abbrev elementsAfter (read : ReadExpr) (first : Expr) (close : Symbol) : Parse (List Expr) := do
  let rest ← itemsAfterCommas (· == .symbol close) (read Level.named) (← turns)
  expect (.symbol close)
  return first :: rest

abbrev clausesUpTo (read : ReadExpr) (close : Symbol) : Parse (List Comprehension) := do
  let found ← clauses read (← turns)
  expect (.symbol close)
  return found

abbrev yieldExpr (read : ReadExpr) : Parse Expr := do
  let mark ← markCurrent
  if ← keywordAhead .from_ then
    return .yield mark (some (← exprAfterNext read Level.named)) true
  else if startsExpression (← ahead).kind then
    advance
    return .yield mark (some (← expressionList read Level.test)) false
  else return .yield mark none false

abbrev parenthesized (read : ReadExpr) : Parse Expr := do
  let mark ← markCurrent
  if ← symbolAhead .closeParen then
    advance
    return .tuple mark [] .load
  advance
  if ← currentIs (.keyword .yield_) then
    let expr ← yieldExpr read
    expect (.symbol .closeParen)
    return expr
  let first ← read Level.named
  if ← clauseAhead then return .generator mark first (← clausesUpTo read .closeParen)
  else if ← symbolAhead .comma then
    return .tuple mark (← elementsAfter read first .closeParen) .load
  else
    expect (.symbol .closeParen)
    return first

abbrev listDisplay (read : ReadExpr) : Parse Expr := do
  let mark ← markCurrent
  if ← symbolAhead .closeBracket then
    advance
    return .list mark [] .load
  advance
  let first ← read Level.named
  if ← clauseAhead then return .listComp mark first (← clausesUpTo read .closeBracket)
  else return .list mark (← elementsAfter read first .closeBracket) .load

abbrev spreadItem (read : ReadExpr) : Parse DictItem := do
  advance
  return { key := none, value := ← read Level.compare }

abbrev dictItem (read : ReadExpr) : Parse DictItem := do
  if ← currentIs (.symbol .power) then spreadItem read
  else
    let key ← read Level.test
    expect (.symbol .colon)
    advance
    return { key := some key, value := ← read Level.test }

abbrev dictAfter (read : ReadExpr) (mark : Mark) (first : DictItem) : Parse Expr := do
  let rest ← itemsAfterCommas (· == .symbol .closeBrace) (dictItem read) (← turns)
  expect (.symbol .closeBrace)
  return .dict mark (first :: rest)

abbrev braceDisplay (read : ReadExpr) : Parse Expr := do
  let mark ← markCurrent
  if ← symbolAhead .closeBrace then
    advance
    return .dict mark []
  advance
  if ← currentIs (.symbol .power) then dictAfter read mark (← spreadItem read)
  else
    let first ← read Level.named
    if ← symbolAhead .colon then
      let value ← exprAfterNext read Level.test
      if ← clauseAhead then return .dictComp mark first value (← clausesUpTo read .closeBrace)
      else dictAfter read mark { key := some first, value }
    else if ← clauseAhead then return .setComp mark first (← clausesUpTo read .closeBrace)
    else return .set mark (← elementsAfter read first .closeBrace)

/-- A text that holds one expression and nothing else. -/
def expressionOnly (read : ReadExpr) : Parse Expr := do
  tokensWhile (currentIs .newline) (fun _ _ => ()) (← turns) ()
  let expr ← expressionList read Level.named
  tokensWhile (aheadIs .newline) (fun _ _ => ()) (← turns) ()
  if ← aheadIs .eof then return expr else unexpected (← ahead)

/-- Runs a step on another stream of tokens. -/
def onStream {α : Type} (stream : TokenStream) (budget : Nat) (step : Parse α) :
    Step (Option α) := do
  let outer ← get
  let inner := { State.start stream budget with
    depth := outer.depth, faults := outer.faults, file := outer.file, nextNode := outer.nextNode,
    exhausted := outer.exhausted }
  let (result, inner) := step.run inner
  set { outer with
    faults := inner.faults, nextNode := inner.nextNode, exhausted := inner.exhausted }
  return result

/-- The expression of one field of a formatted string. -/
abbrev embedded (read : ReadExpr) (position : Position) (source : String) : Step (Option Expr) :=
  let tokens := (tokenize source).map fun token => { token with position }
  onStream (.replay ⟨tokens⟩) (Lexer.tokenBound source.length) (expressionOnly read)

def embeddedAll (read : ReadExpr) (position : Position) : List String → Step (List Expr)
  | [] => return []
  | source :: rest => do
    let first ← embedded read position source
    return first.toList ++ (← embeddedAll read position rest)

structure StringPieces where
  text : String := ""
  values : List Expr := []
  isFormatted : Bool := false

def stringPieces (read : ReadExpr) : Nat → StringPieces → Parse StringPieces
  | 0, _ => outOfTurns
  | turns + 1, pieces => do
    let token ← current
    let pieces ← if token.kind == .fstring then do
        let values ← embeddedAll read token.position (fields token.value)
        pure { pieces with values := pieces.values ++ values, isFormatted := true }
      else pure { pieces with text := pieces.text ++ token.value }
    if ← eitherAhead .string .fstring then
      advance
      stringPieces read turns pieces
    else return pieces

/-- Adjacent string literals are joined. -/
abbrev strings (read : ReadExpr) : Parse Expr := do
  let mark ← markCurrent
  let pieces ← stringPieces read (← turns) {}
  if pieces.isFormatted then return .formatted mark pieces.values
  else return .constant mark .str pieces.text

abbrev bytes : Parse Expr := do
  let mark ← markCurrent
  let value ← tokensWhile (aheadIs .bytes) (fun text token => text ++ token.value) (← turns)
    mark.token.value
  return .constant mark .bytes value

abbrev constant (kind : ConstantKind) (value : Token → String) : Parse Expr := do
  let mark ← markCurrent
  return .constant mark kind (value mark.token)

abbrev unaryExpr (read : ReadExpr) (op : UnaryOp) : Parse Expr := do
  let mark ← markCurrent
  advance
  return .unary mark op (← read op.level)

abbrev starredExpr (read : ReadExpr) : Parse Expr := do
  let mark ← markCurrent
  advance
  return .starred mark (← read Level.compare) .load

abbrev awaitExpr (read : ReadExpr) : Parse Expr := do
  let mark ← markCurrent
  advance
  return .await mark (← read Level.await)

abbrev lambdaExpr (read : ReadExpr) : Parse Expr := do
  let mark ← markCurrent
  let params ← parameters read .colon false
  advance
  return .lambda mark params (← read Level.test)

abbrev nameExpr : Parse Expr := do
  let mark ← markCurrent
  return .name mark mark.token.lexeme .load

def operand (read : ReadExpr) : Parse Expr := do
  let token ← current
  match token.kind with
  | .ident => nameExpr
  | .int => constant .int Token.value
  | .float => constant .float Token.value
  | .imag => constant .complex Token.value
  | .string | .fstring => strings read
  | .bytes => bytes
  | .keyword .true_ | .keyword .false_ => constant .bool (·.lexeme)
  | .keyword .none_ => constant .none (·.lexeme)
  | .symbol .ellipsis => constant .ellipsis (·.lexeme)
  | .symbol .openParen => parenthesized read
  | .symbol .openBracket => listDisplay read
  | .symbol .openBrace => braceDisplay read
  | .symbol .minus => unaryExpr read .minus
  | .symbol .plus => unaryExpr read .plus
  | .symbol .tilde => unaryExpr read .invert
  | .keyword .not_ => unaryExpr read .not
  | .symbol .star => starredExpr read
  | .keyword .lambda_ => lambdaExpr read
  | .keyword .await_ => awaitExpr read
  | .keyword .yield_ => yieldExpr read
  | _ => unexpected token

end Stubwise.Parser
