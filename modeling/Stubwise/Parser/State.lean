import Stubwise.Diagnostic
import Stubwise.Token.Stream
import Stubwise.Tree.Printer

namespace Stubwise.Parser

def maxDepth : Nat :=
  512

structure State where
  stream : TokenStream
  current : Token
  ahead : Token
  depth : Nat := 0
  /-- The faults of the current statement so far, recorded or not. -/
  statementFaults : Nat := 0
  faults : List Diagnostic := []
  file : String := ""
  nextNode : Nat := 0
  budget : Nat
  exhausted : Bool := false

abbrev Step := StateM State

abbrev Parse := OptionT Step

def State.start (stream : TokenStream) (budget : Nat) : State :=
  let (current, stream) := stream.next
  let (ahead, stream) := stream.next
  { stream, current, ahead, budget }

def advance : Step Unit :=
  modify fun state =>
    let (token, stream) := state.stream.next
    { state with stream, current := state.ahead, ahead := token }

def current : Step Token :=
  return (← get).current

def ahead : Step Token :=
  return (← get).ahead

def currentIs (kind : TokenKind) : Step Bool :=
  return (← get).current.kind == kind

def aheadIs (kind : TokenKind) : Step Bool :=
  return (← get).ahead.kind == kind

def kindAfterAhead : Step TokenKind := do
  let state ← get
  let (tokens, stream) := state.stream.peek 1
  set { state with stream }
  return (tokens.head?.map (·.kind)).getD .eof

def mark (token : Token) : Step Mark :=
  modifyGet fun state => (⟨token, state.nextNode⟩, { state with nextNode := state.nextNode + 1 })

def markCurrent : Step Mark := do
  mark (← current)

def record (code : Code) (token : Token) (message : String) : Step Unit :=
  modify fun state =>
    let faults := if state.statementFaults == 0 then
        { code, message, position := token.position, file := state.file } :: state.faults
      else state.faults
    { state with faults, statementFaults := state.statementFaults + 1 }

def reject {α : Type} (code : Code) (token : Token) (message : String) : Parse α := do
  record code token message
  failure

def outOfTurns {α : Type} : Parse α := do
  modify fun state => { state with exhausted := true }
  failure

def describe (token : Token) : String :=
  match token.kind with
  | .newline => "end of line"
  | .eof => "end of file"
  | .indent => "indent"
  | .dedent => "dedent"
  | kind => if token.lexeme.isEmpty then kind.text else Text.quote token.lexeme

abbrev recordIllegal (token : Token) : Step Unit :=
  let message := if token.value.isEmpty then "illegal token " ++ describe token else token.value
  let code := if Text.contains message "indent" then Code.badIndentation else .illegalCharacter
  record code token message

abbrev recordUnexpected (token : Token) : Step Unit :=
  if token.kind == .illegal then recordIllegal token
  else record .unexpectedToken token ("unexpected " ++ describe token)

def unexpected {α : Type} (token : Token) : Parse α := do
  recordUnexpected token
  failure

abbrev recordMissing (kind : TokenKind) : Step Unit := do
  let token ← ahead
  if token.kind == .illegal then recordIllegal token
  else
    record .unexpectedToken token
      ("expected " ++ Text.quote kind.text ++ ", got " ++ describe token)

def tryExpect (kind : TokenKind) : Step Bool := do
  if ← aheadIs kind then
    advance
    return true
  else
    recordMissing kind
    return false

def expect (kind : TokenKind) : Parse Unit := do
  if ← tryExpect kind then return else failure

abbrev symbolAhead (symbol : Symbol) : Step Bool :=
  aheadIs (.symbol symbol)

abbrev keywordAhead (keyword : Keyword) : Step Bool :=
  aheadIs (.keyword keyword)

abbrev eitherAhead (kind other : TokenKind) : Step Bool := do
  return (← aheadIs kind) || (← aheadIs other)

def turns : Step Nat :=
  return (← get).budget

/-- Items as long as a test holds before them. -/
def itemsWhile {α : Type} (test : Step Bool) (item : Parse α) : Nat → Parse (List α)
  | 0 => outOfTurns
  | turns + 1 => do
    if ← test then
      let first ← item
      return first :: (← itemsWhile test item turns)
    else return []

/-- Items with one token between them, for which a test looks ahead. -/
def itemsBetween {α : Type} (test : Step Bool) (item : Parse α) : Nat → Parse (List α)
  | 0 => outOfTurns
  | turns + 1 => do
    let first ← item
    if ← test then
      advance
      return first :: (← itemsBetween test item turns)
    else return [first]

/-- Takes in tokens as long as a test holds before them. -/
def tokensWhile {α : Type} (test : Step Bool) (add : α → Token → α) : Nat → α → Parse α
  | 0, _ => outOfTurns
  | turns + 1, soFar => do
    if ← test then
      advance
      tokensWhile test add turns (add soFar (← current))
    else return soFar

/-- What follows the first item of a list: further items after commas. -/
def itemsAfterCommas {α : Type} (stops : TokenKind → Bool) (item : Parse α) :
    Nat → Parse (List α)
  | 0 => outOfTurns
  | turns + 1 => do
    if ← symbolAhead .comma then
      advance
      if stops (← ahead).kind then return []
      advance
      let first ← item
      return first :: (← itemsAfterCommas stops item turns)
    else return []

end Stubwise.Parser
