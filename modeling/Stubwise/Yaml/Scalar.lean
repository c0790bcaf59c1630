import Stubwise.Yaml.Cursor

namespace Stubwise.Yaml.Scalar

def endsInBrackets (c : Char) : Bool :=
  c == ',' || c == '?' || c == '[' || c == ']' || c == '\x7b' || c == '\x7d'

def plainGoesOn (inBrackets : Bool) (cursor : Cursor) : Bool :=
  match cursor.current with
  | none => false
  | some c =>
    !isBlank c && !isBreak c && !(c == ':' && cursor.gapAt 1) &&
      !(inBrackets && endsInBrackets c)

def plainWord (inBrackets : Bool) : Nat → String → Cursor → String × Cursor
  | 0, word, cursor => (word, cursor)
  | turns + 1, word, cursor =>
    if plainGoesOn inBrackets cursor then
      plainWord inBrackets turns (word.push (cursor.current.getD ' ')) cursor.skip
    else (word, cursor)

/-- Reads a plain scalar. The last part tells whether it ended with a line. -/
def plain (inBrackets : Bool) (indent : Nat) :
    Nat → String → Gap → Cursor → Option (String × Cursor × Bool)
  | 0, _, _, _ => none
  | turns + 1, text, gap, cursor =>
    if cursor.lacks 4 then none
    else if cursor.isDocumentEdge || cursor.current == some '#' then
      some (text, cursor, gap.isBreaks)
    else
      let (word, next) := plainWord inBrackets turns "" cursor
      let (text, gap) :=
        if word.isEmpty then (text, gap) else (text ++ gap.text ++ word, .spaces "")
      match next.current with
      | none => if next.isCut then none else some (text, next, gap.isBreaks)
      | some c =>
        if !(isBlank c || isBreak c) then some (text, next, gap.isBreaks)
        else do
          let (gap, next) ← Gap.read indent (turns + 1) gap next
          if !inBrackets && next.col < indent then some (text, next, gap.isBreaks)
          else plain inBrackets indent turns text gap next

def hexChar? (digits : List Char) (length : Nat) : Option Char := do
  if digits.length != length then none
  else
    let code ← digits.foldlM (fun code digit => (hexDigit? digit).map (code * 16 + ·)) 0
    if (0xd800 ≤ code && code ≤ 0xdfff) || 0x10ffff < code then none else some (Char.ofNat code)

def simpleEscape? : Char → Option Char
  | '0' => some '\x00'
  | 'a' => some '\x07'
  | 'b' => some '\x08'
  | 't' | '\t' => some '\t'
  | 'n' => some '\n'
  | 'v' => some '\x0b'
  | 'f' => some '\x0c'
  | 'r' => some '\r'
  | 'e' => some '\x1b'
  | ' ' => some ' '
  | '"' => some '"'
  | '\'' => some '\''
  | '\\' => some '\\'
  | 'N' => some '\u0085'
  | '_' => some '\u00a0'
  | 'L' => some '\u2028'
  | 'P' => some '\u2029'
  | _ => none

def hexLength? : Char → Option Nat
  | 'x' => some 2
  | 'u' => some 4
  | 'U' => some 8
  | _ => none

def escape (cursor : Cursor) : Option (Char × Cursor) := do
  let letter ← cursor.current
  let next := cursor.skip
  match hexLength? letter with
  | some length => do
    let c ← hexChar? (next.rest.take length) length
    some (c, next.skipMany length)
  | none => do
    let c ← simpleEscape? letter
    some (c, next)

inductive RunEnd where
  | quote | gap | foldedBreak

def quotedRun (quote : Char) : Nat → String → Cursor → Option (String × Cursor × RunEnd)
  | 0, _, _ => none
  | turns + 1, text, cursor =>
    match cursor.current with
    | none => some (text, cursor, .gap)
    | some c =>
      if isBlank c || isBreak c then some (text, cursor, .gap)
      else if c == quote then
        if quote == '\'' && cursor.ahead 1 == some '\'' then
          quotedRun quote turns (text.push '\'') cursor.skip.skip
        else some (text, cursor, .quote)
      else if quote == '"' && c == '\\' then
        if (cursor.ahead 1).any isBreak then
          some (text, cursor.skip.readBreak.2, .foldedBreak)
        else do
          let (c, next) ← escape cursor.skip
          quotedRun quote turns (text.push c) next
      else quotedRun quote turns (text.push c) cursor.skip

def quoted (quote : Char) : Nat → String → Cursor → Option (String × Cursor)
  | 0, _, _ => none
  | turns + 1, text, cursor =>
    if cursor.lacks 4 || cursor.isDocumentEdge || cursor.rest.isEmpty then none
    else do
      let (text, next, ending) ← quotedRun quote (turns + 1) text cursor
      match ending with
      | .quote => some (text, next.skip)
      | .gap => do
        let (gap, next) ← Gap.read 0 (turns + 1) (.spaces "") next
        quoted quote turns (text ++ gap.text) next
      | .foldedBreak => do
        let (gap, next) ← Gap.read 0 (turns + 1) (.breaks "" "") next
        quoted quote turns (text ++ gap.text) next

inductive Chomping where
  | strip | clip | keep

structure BlockHeader where
  chomping : Chomping := .clip
  increment : Option Nat := none

def chomping? : Char → Option Chomping
  | '+' => some .keep
  | '-' => some .strip
  | _ => none

def increment? (c : Char) : Option Nat :=
  if '0' ≤ c ∧ c ≤ '9' then some (c.toNat - '0'.toNat) else none

def blockHeader (cursor : Cursor) : Option (BlockHeader × Cursor) := do
  let (header, next) := marks cursor
  if header.increment == some 0 then none
  else
    let next := next.skipWhile isBlank
    let next := if next.current == some '#' then next.skipWhile (!isBreak ·) else next
    if next.breakAt 0 then
      some (header, if next.rest.isEmpty then next else next.readBreak.2)
    else none
where
  marks (cursor : Cursor) : BlockHeader × Cursor :=
    match cursor.current with
    | none => ({}, cursor)
    | some c =>
      match chomping? c with
      | some chomping =>
        match cursor.skip.current.bind increment? with
        | some increment => ({ chomping, increment }, cursor.skip.skip)
        | none => ({ chomping }, cursor.skip)
      | none =>
        match increment? c with
        | none => ({}, cursor)
        | some increment =>
          match cursor.skip.current.bind chomping? with
          | some chomping => ({ chomping, increment }, cursor.skip.skip)
          | none => ({ increment }, cursor.skip)

/-- Reads the blank lines before a line of a block. -/
def blankLines (indent : Nat) : Nat → Nat → String → Cursor → Option (Nat × String × Cursor)
  | 0, _, _, _ => none
  | turns + 1, deepest, breaks, cursor =>
    let next := skipSpaces (turns + 1) cursor
    let deepest := max deepest next.col
    if (indent == 0 || next.col < indent) && next.current == some '\t' then none
    else if next.current.any isBreak then
      let (kept, after) := next.readBreak
      blankLines indent turns deepest (breaks ++ kept) after
    else some (deepest, breaks, next)
where
  skipSpaces : Nat → Cursor → Cursor
    | 0, cursor => cursor
    | turns + 1, cursor =>
      if (indent == 0 || cursor.col < indent) && cursor.current == some ' ' then
        skipSpaces turns cursor.skip
      else cursor

structure BlockText where
  text : String := ""
  leadingBreak : String := ""
  trailingBreaks : String := ""
  leadingBlank : Bool := false

/-- Reads the lines of a block with the given indentation. -/
def blockLines (folded : Bool) (indent : Nat) :
    Nat → BlockText → Cursor → Option (BlockText × Cursor)
  | 0, _, _ => none
  | turns + 1, block, cursor =>
    match cursor.current with
    | none => if cursor.isCut then none else some (block, cursor)
    | some c =>
      if cursor.col != indent then some (block, cursor)
      else do
        let blank := isBlank c
        let joins := folded && !block.leadingBlank && !blank && block.leadingBreak == "\n"
        let joint :=
          if !joins then block.leadingBreak
          else if block.trailingBreaks.isEmpty then " " else ""
        let line := cursor.rest.takeWhile (!isBreak ·)
        let (kept, next) := (cursor.skipWhile (!isBreak ·)).readBreak
        let (_, breaks, next) ← blankLines indent (turns + 1) 0 "" next
        blockLines folded indent turns
          { text := block.text ++ joint ++ block.trailingBreaks ++ String.ofList line
            leadingBreak := kept, trailingBreaks := breaks, leadingBlank := blank } next

def block (folded : Bool) (outer : Int) (turns : Nat) (cursor : Cursor) :
    Option (String × Cursor) := do
  let (header, cursor) ← blockHeader cursor
  let known := header.increment.map fun increment => (max outer 0).toNat + increment
  let (deepest, breaks, next) ← blankLines (known.getD 0) turns 0 "" cursor
  let indent := known.getD (max deepest (max (outer + 1) 1).toNat)
  let (read, next) ← blockLines folded indent turns { trailingBreaks := breaks } next
  let ending := match header.chomping with
    | .strip => ""
    | .clip => read.leadingBreak
    | .keep => read.leadingBreak ++ read.trailingBreaks
  some (read.text ++ ending, next)

end Stubwise.Yaml.Scalar
