import Stubwise.Yaml.Scalar
import Stubwise.Yaml.Tag

/-!
The lexemes of a YAML text. Indentation opens and closes blocks, and a word becomes a key when a
colon follows it on the same line.
-/

namespace Stubwise.Yaml

structure Source where
  cursor : Cursor
  lossyLines : Nat := 0
  deriving Inhabited

namespace Source

def portionSize : Nat :=
  512

def byteOrderMark : Char :=
  '\ufeff'

def portions (used : Nat) (portion : List Char) : List Char → List (List Char)
  | [] => [portion.reverse]
  | c :: rest =>
    if used + c.utf8Size ≤ portionSize then portions (used + c.utf8Size) (c :: portion) rest
    else portion.reverse :: portions c.utf8Size [c] rest

/-- Opens a text. A byte order mark before it is dropped. After a second one each line loses its
first character, as far as the first portion goes. -/
def ofText (text : String) : Source :=
  let isMarked := text.toList.head? == some byteOrderMark
  let chars := if isMarked then text.toList.drop 1 else text.toList
  let all := portions (if isMarked then byteOrderMark.utf8Size else 0) [] chars
  let sound := all.takeWhile (·.all isAllowed)
  let first := sound.headD []
  { cursor := { rest := sound.flatten, isCut := sound.length < all.length }
    lossyLines := if first.head? == some byteOrderMark then first.length else 0 }

end Source

inductive Lexeme where
  | directive (directive : Directive)
  | documentStart | documentEnd | streamEnd
  | blockList | blockMap | blockEnd
  | openList | closeList | openMap | closeMap
  | item | comma | key | value
  | reference (name : String)
  | anchor (name : String)
  | tag (handle suffix : String)
  | scalar (text : String) (isPlain : Bool)
  deriving DecidableEq, Repr, Inhabited

structure KeyCandidate where
  isOpen : Bool := false
  isRequired : Bool := false
  isAwaited : Bool := false
  place : Nat := 0
  line : Nat := 0
  col : Nat := 0
  index : Nat := 0
  deriving Inhabited

structure Scanner where
  cursor : Cursor
  size : Nat := 0
  /-- Lines that begin before this index lose their first character. -/
  lossyLines : Nat := 0
  lexemes : Array Lexeme := #[]
  indent : Int := -1
  outerIndents : List Int := []
  candidates : List KeyCandidate := [{}]
  depth : Nat := 0
  keyAllowed : Bool := true
  deriving Inhabited

abbrev Scan := StateT Scanner Option

namespace Scan

def refuse {α : Type} : Scan α :=
  fun _ => none

def orRefuse {α : Type} : Option α → Scan α
  | some a => return a
  | none => refuse

def emit (lexeme : Lexeme) : Scan Unit :=
  modify fun scanner => { scanner with lexemes := scanner.lexemes.push lexeme }

def moveTo (cursor : Cursor) : Scan Unit :=
  modify fun scanner => { scanner with cursor }

def skip (count : Nat) : Scan Unit :=
  modify fun scanner => { scanner with cursor := scanner.cursor.skipMany count }

def allowKey (allowed : Bool) : Scan Unit :=
  modify fun scanner => { scanner with keyAllowed := allowed }

def inBrackets : Scan Bool :=
  return 0 < (← get).depth

def candidate : Scan KeyCandidate :=
  return (← get).candidates.headD {}

def setCandidate (candidate : KeyCandidate) : Scan Unit :=
  modify fun scanner => { scanner with candidates := candidate :: scanner.candidates.drop 1 }

def dropCandidate : Scan Unit := do
  let known ← candidate
  if known.isOpen && known.isRequired then refuse
  setCandidate { known with isOpen := false }

def markCandidate : Scan Unit := do
  let scanner ← get
  if scanner.keyAllowed then
    let cursor := scanner.cursor
    dropCandidate
    setCandidate {
      isOpen := true
      isAwaited := true
      isRequired := scanner.depth == 0 && scanner.indent == cursor.col
      place := scanner.lexemes.size
      line := cursor.line, col := cursor.col, index := cursor.index }

def maxKeyLength : Nat :=
  1024

def isStale (known : KeyCandidate) (cursor : Cursor) : Bool :=
  known.line < cursor.line || known.index + maxKeyLength < cursor.index

def openCandidate? : Scan (Option KeyCandidate) := do
  let known ← candidate
  if !known.isOpen then return none
  if isStale known (← get).cursor then
    dropCandidate
    return none
  return some known

/-- The candidate that a lexeme is, if it is held back. -/
def awaited? (place : Nat) : List KeyCandidate → Option KeyCandidate
  | [] => none
  | known :: outer =>
    if known.isOpen && known.isAwaited && known.place == place then some known
    else if known.place < place then none
    else awaited? place outer

def giveUp (place : Nat) : List KeyCandidate → List KeyCandidate
  | [] => []
  | known :: outer =>
    if known.isOpen && known.isAwaited && known.place == place then
      { known with isOpen := false } :: outer
    else known :: giveUp place outer

def isUndecided (place : Nat) : Scan Bool := do
  let scanner ← get
  match awaited? place scanner.candidates with
  | none => return false
  | some known => do
    if !isStale known scanner.cursor then return true
    if known.isRequired then refuse
    modify fun scanner => { scanner with candidates := giveUp place scanner.candidates }
    return false

def maxNesting : Nat :=
  10000

def openBlock (col : Nat) (place : Option Nat) (lexeme : Lexeme) : Scan Unit := do
  if !(← inBrackets) then
    modify fun scanner =>
      if scanner.indent < (col : Int) then
        let place := place.getD scanner.lexemes.size
        { scanner with
          indent := col
          outerIndents := scanner.indent :: scanner.outerIndents
          lexemes := scanner.lexemes.insertIdxIfInBounds place lexeme }
      else scanner
    if maxNesting < (← get).outerIndents.length then refuse

def closeBlocksFrom (col : Int) : List Int → Scan Unit
  | [] => return ()
  | outer :: rest => do
    if col < (← get).indent then
      modify fun scanner => { scanner with
        indent := outer
        outerIndents := rest
        lexemes := scanner.lexemes.push .blockEnd }
      closeBlocksFrom col rest

def closeBlocks (col : Int) : Scan Unit := do
  if !(← inBrackets) then closeBlocksFrom col (← get).outerIndents

def commentReach : Nat :=
  512

/-- Skips a comment, and further comments as long as only blanks and line ends stand between them.
-/
def skipComments : Nat → Cursor → Option Cursor
  | 0, cursor => some cursor
  | turns + 1, cursor =>
    let ended := cursor.skipWhile (!isBreak ·)
    if ended.lacks 1 then none
    else if !ended.current.any (fun c => c == '\n' || c == '\r') then some ended
    else
      let gap := (ended.rest.drop 1).takeWhile fun c => isBlank c || c == '\n' || c == '\r'
      let offset := gap.length + 1
      if commentReach ≤ offset then some ended
      else if ended.lacks (offset + 1) then none
      else if ended.ahead offset == some '#' then
        skipComments turns (ended.skipTo (ended.index + offset) offset)
      else some ended

/-- Skips blanks, comments and line breaks. -/
def skipGap : Nat → Scan Unit
  | 0 => return ()
  | turns + 1 => do
    let scanner ← get
    let bracketed ← inBrackets
    let start := scanner.cursor
    let start :=
      if start.col == 0 && start.index < scanner.lossyLines then start.skip else start
    let cursor := start.skipWhile fun c =>
      c == ' ' || (c == '\t' && (bracketed || !scanner.keyAllowed))
    if cursor.lacks 1 then refuse
    let cursor ←
      if cursor.current == some '#' then orRefuse (skipComments (scanner.size + 1) cursor)
      else pure cursor
    moveTo cursor
    if cursor.current.any isBreak then
      moveTo cursor.readBreak.2
      if !bracketed then allowKey true
      skipGap turns

def skipLineComment : Scan Unit := do
  let cursor := (← get).cursor
  let blanks := (cursor.rest.takeWhile isBlank).length
  if blanks < commentReach then
    if cursor.lacks (blanks + 1) then refuse
    if cursor.ahead blanks == some '#' then
      let ended := cursor.skipWhile (!isBreak ·)
      if ended.lacks 1 then refuse
      moveTo ended

def documentMark (lexeme : Lexeme) : Scan Unit := do
  closeBlocks (-1)
  dropCandidate
  allowKey false
  skip 3
  emit lexeme

def directive : Scan Unit := do
  closeBlocks (-1)
  dropCandidate
  allowKey false
  let (read, next) ← orRefuse (Directive.read (← get).cursor.skip)
  moveTo next
  emit (.directive read)

def finish : Scan Unit := do
  let cursor := (← get).cursor
  if cursor.col != 0 then moveTo { cursor with col := 0, line := cursor.line + 1 }
  closeBlocks (-1)
  dropCandidate
  allowKey false
  emit .streamEnd

def openBrackets (lexeme : Lexeme) : Scan Unit := do
  markCandidate
  modify fun scanner =>
    { scanner with
      candidates := { place := scanner.lexemes.size } :: scanner.candidates
      depth := scanner.depth + 1 }
  if maxNesting < (← get).depth then refuse
  allowKey true
  skip 1
  emit lexeme

def closeBrackets (lexeme : Lexeme) : Scan Unit := do
  dropCandidate
  if ← inBrackets then
    modify fun scanner => { scanner with
      candidates := leave scanner.candidates
      depth := scanner.depth - 1 }
  allowKey false
  skip 1
  emit lexeme
where
  leave : List KeyCandidate → List KeyCandidate
    | inner :: outer :: rest =>
      { outer with isAwaited := outer.isAwaited && outer.place != inner.place } :: rest
    | candidates => candidates

def comma : Scan Unit := do
  dropCandidate
  allowKey true
  skip 1
  emit .comma

def blockMark (block lexeme : Lexeme) (keyAfter : Bool) : Scan Unit := do
  let bracketed ← inBrackets
  if !bracketed then
    if !(← get).keyAllowed then refuse
    openBlock (← get).cursor.col none block
  dropCandidate
  allowKey keyAfter
  skip 1
  emit lexeme

def colon : Scan Unit := do
  match ← openCandidate? with
  | some known => do
    modify fun scanner => { scanner with
      lexemes := scanner.lexemes.insertIdxIfInBounds known.place .key }
    openBlock known.col known.place .blockMap
    setCandidate { known with isOpen := false }
    allowKey false
  | none => do
    if !(← inBrackets) then
      if !(← get).keyAllowed then refuse
      openBlock (← get).cursor.col none .blockMap
    allowKey (!(← inBrackets))
  skip 1
  emit .value

def named (lexeme : String → Lexeme) : Scan Unit := do
  markCandidate
  allowKey false
  let cursor := (← get).cursor.skip
  let name := String.ofList (cursor.rest.takeWhile isNameChar)
  let next := cursor.skipWhile isNameChar
  if next.lacks 1 then refuse
  let ends := next.gapAt 0 || next.current.any ("?:,]\x7d%@\x60".toList.contains ·)
  if name.isEmpty || !ends then refuse
  moveTo next
  emit (lexeme name)

def tag : Scan Unit := do
  markCandidate
  allowKey false
  let (handle, suffix, next) ← orRefuse (Tag.read (← get).cursor)
  moveTo next
  emit (.tag handle suffix)

def block (folded : Bool) : Scan Unit := do
  dropCandidate
  allowKey true
  let scanner ← get
  let (text, next) ← orRefuse
    (Scalar.block folded scanner.indent (scanner.size + 1) scanner.cursor.skip)
  moveTo next
  emit (.scalar text false)

def quoted (quote : Char) : Scan Unit := do
  markCandidate
  allowKey false
  let scanner ← get
  let (text, next) ← orRefuse (Scalar.quoted quote (scanner.size + 1) "" scanner.cursor.skip)
  moveTo next
  emit (.scalar text false)

def plain : Scan Bool := do
  markCandidate
  allowKey false
  let scanner ← get
  let indent := (scanner.indent + 1).toNat
  let (text, next, endedLine) ← orRefuse
    (Scalar.plain (← inBrackets) indent (scanner.size + 1) "" (.spaces "") scanner.cursor)
  moveTo next
  if endedLine then allowKey true
  emit (.scalar text true)
  return endedLine

def startsPlain (bracketed : Bool) (c : Char) (cursor : Cursor) : Bool :=
  (!cursor.gapAt 0 && !("-?:,[]\x7b\x7d#&*!|>'\"%@\x60".toList.contains c)) ||
    (c == '-' && !(cursor.ahead 1).any isBlank) ||
    (!bracketed && (c == '?' || c == ':') && !cursor.gapAt 1)

def inner (bracketed : Bool) (c : Char) (cursor : Cursor) : Scan Bool := do
  if c == '[' then openBrackets .openList
  else if c == '\x7b' then openBrackets .openMap
  else if c == ']' then closeBrackets .closeList
  else if c == '\x7d' then closeBrackets .closeMap
  else if c == ',' then comma
  else if c == '-' && cursor.gapAt 1 then
    blockMark .blockList .item true
    return false
  else if c == '?' && (bracketed || cursor.gapAt 1) then blockMark .blockMap .key (!bracketed)
  else if c == ':' && (bracketed || cursor.gapAt 1) then colon
  else if c == '*' then named .reference
  else if c == '&' then named .anchor
  else if c == '!' then tag
  else if c == '|' && !bracketed then
    block false
    return false
  else if c == '>' && !bracketed then
    block true
    return false
  else if c == '\'' || c == '"' then quoted c
  else if startsPlain bracketed c cursor then return !(← plain)
  else refuse
  return true

def step : Scan Unit := do
  skipGap ((← get).size + 1)
  let cursor := (← get).cursor
  closeBlocks cursor.col
  if cursor.lacks 4 then refuse
  match cursor.current with
  | none => finish
  | some c => do
    if cursor.col == 0 && c == '%' then directive
    else if cursor.isDocumentMark '-' then documentMark .documentStart
    else if cursor.isDocumentMark '.' then documentMark .documentEnd
    else if ← inner (← inBrackets) c cursor then skipLineComment

def lookahead : Nat :=
  3

def isKnown (place : Nat) : Scan Bool := do
  if (← get).lexemes.size < place + lookahead then return false
  return !(← isUndecided place)

def fetch (place : Nat) : Nat → Scan Unit
  | 0 => refuse
  | turns + 1 => do
    if !(← isKnown place) then
      step
      fetch place turns

def lexemeAt (place : Nat) : Scan Lexeme := do
  if !(← isKnown place) then fetch place ((← get).size + 2 * lookahead)
  return (← get).lexemes[place]?.getD .streamEnd

end Scan

def Scanner.ofText (text : String) : Scanner :=
  let source := Source.ofText text
  { cursor := source.cursor, size := text.length, lossyLines := source.lossyLines }

end Stubwise.Yaml
