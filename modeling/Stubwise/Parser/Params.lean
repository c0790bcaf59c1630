import Stubwise.Parser.State

namespace Stubwise.Parser

abbrev ReadExpr := Level → Parse Expr

abbrev exprAfterNext (read : ReadExpr) (level : Level) : Parse Expr := do
  advance
  advance
  read level

abbrev parameter (read : ReadExpr) (hints : Bool) : Parse Param := do
  let mark ← markCurrent
  let hint ← if hints && (← symbolAhead .colon) then some <$> exprAfterNext read Level.test
    else pure none
  return { mark, name := mark.token.lexeme, hint }

structure ParamsSoFar where
  params : Parameters := .empty
  seenStar : Bool := false
  seenSlash : Bool := false

def addPlain (read : ReadExpr) (hints : Bool) (soFar : ParamsSoFar) : Parse ParamsSoFar := do
  let params := soFar.params
  if let some kwarg := params.kwarg then
    reject .unexpectedToken (← current) ("parameter after **" ++ kwarg.name)
  let param ← parameter read hints
  let default ← if ← symbolAhead .assign then some <$> exprAfterNext read Level.test
    else pure none
  if soFar.seenStar then
    return { soFar with params := { params with
      kwOnly := params.kwOnly ++ [param], kwDefaults := params.kwDefaults ++ [default] } }
  else if default.isNone && !params.defaults.isEmpty then
    reject .unexpectedToken param.mark.token "non-default argument follows default argument"
  else return { soFar with params := { params with
      args := params.args ++ [param], defaults := params.defaults ++ default.toList } }

abbrev addStar (read : ReadExpr) (hints : Bool) (soFar : ParamsSoFar) : Parse ParamsSoFar := do
  if soFar.seenStar then
    reject .unexpectedToken (← current) "* argument may appear only once"
  let soFar := { soFar with seenStar := true }
  if ← aheadIs .ident then
    advance
    let vararg ← parameter read hints
    return { soFar with params := { soFar.params with vararg := some vararg } }
  else return soFar

abbrev addSlash (soFar : ParamsSoFar) : Parse ParamsSoFar := do
  let params := soFar.params
  if soFar.seenSlash || soFar.seenStar || params.args.isEmpty then
    reject .unexpectedToken (← current)
      "'/' must follow at least one positional parameter and appear once"
  return { soFar with seenSlash := true, params := { params with posOnly := params.args, args := [] } }

abbrev addKwarg (read : ReadExpr) (hints : Bool) (soFar : ParamsSoFar) : Parse ParamsSoFar := do
  expect .ident
  let kwarg ← parameter read hints
  return { soFar with params := { soFar.params with kwarg := some kwarg } }

def addPart (read : ReadExpr) (hints : Bool) (soFar : ParamsSoFar) : Parse ParamsSoFar := do
  match (← current).kind with
  | .symbol .slash => addSlash soFar
  | .symbol .star => addStar read hints soFar
  | .symbol .power => addKwarg read hints soFar
  | .ident => addPlain read hints soFar
  | _ => unexpected (← current)

def moreParameters (read : ReadExpr) (close : Symbol) (hints : Bool) :
    Nat → ParamsSoFar → Parse Parameters
  | 0, _ => outOfTurns
  | turns + 1, soFar => do
    advance
    let soFar ← addPart read hints soFar
    if ← symbolAhead .comma then
      advance
      if ← symbolAhead close then
        advance
        return soFar.params
      else moreParameters read close hints turns soFar
    else
      expect (.symbol close)
      return soFar.params

abbrev parameters (read : ReadExpr) (close : Symbol) (hints : Bool) : Parse Parameters := do
  if ← symbolAhead close then
    advance
    return .empty
  else moreParameters read close hints (← turns) {}

end Stubwise.Parser
