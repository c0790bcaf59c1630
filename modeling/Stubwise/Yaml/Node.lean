import Stubwise.Data.Table
import Stubwise.Yaml.Lexeme

/-!
The trees that YAML texts are written for. Anchors give nodes a name, and references stand for the
nodes with such names.
-/

namespace Stubwise.Yaml

inductive Node where
  | scalar (tag text : String) (isPlain : Bool)
  | list (items : List Node)
  | map (entries : List (Node × Node))
  /-- The reference with a number of its own, to the node at a place among those with anchors. -/
  | reference (id : Nat) (name : String) (target : Nat)
  deriving Inhabited

def Node.nothing (tag : String) : Node :=
  .scalar tag "" true

structure Document where
  root : Node
  anchored : Array Node := #[]
  references : Nat := 0
  deriving Inhabited

structure Builder where
  used : Nat := 0
  handles : Table String := []
  anchors : Table Nat := []
  anchored : Array Node := #[]
  references : Nat := 0

abbrev Build := StateT Builder Scan

namespace Build

def refuse {α : Type} : Build α :=
  fun _ => Scan.refuse

def peek : Build Lexeme := do
  Scan.lexemeAt (← get).used

def skip : Build Unit :=
  modify fun builder => { builder with used := builder.used + 1 }

def nextIsIn (lexemes : List Lexeme) : Build Bool :=
  return lexemes.contains (← peek)

def skipIf (lexeme : Lexeme) : Build Bool := do
  if (← peek) == lexeme then
    skip
    return true
  return false

/-- The short form of a tag whose handle is replaced by what it stands for. -/
def tagOf (handle suffix : String) : Build String := do
  let tag ←
    if handle.isEmpty then pure suffix
    else match (← get).handles.get? handle with
      | some start => pure (start ++ suffix)
      | none => refuse
  return if tag == "!" then "" else Tag.short tag

structure Properties where
  anchor : Option String := none
  tag : Option (String × String) := none

def properties : Build Properties := do
  match ← peek with
  | .anchor anchor => do
    skip
    match ← peek with
    | .tag handle suffix => do
      skip
      return { anchor, tag := (handle, suffix) }
    | _ => return { anchor }
  | .tag handle suffix => do
    skip
    match ← peek with
    | .anchor anchor => do
      skip
      return { anchor, tag := (handle, suffix) }
    | _ => return { tag := (handle, suffix) }
  | _ => return {}

/-- Makes an anchor known before its node is read, so that the node may refer to itself. -/
def announce : Option String → Build (Option Nat)
  | none => return none
  | some anchor => do
    let place := (← get).anchored.size
    modify fun builder => { builder with
      anchors := builder.anchors.set anchor place
      anchored := builder.anchored.push (.nothing "") }
    return some place

def keep (place : Option Nat) (node : Node) : Build Node := do
  match place with
  | none => return node
  | some place => do
    modify fun builder =>
      { builder with anchored := builder.anchored.setIfInBounds place node }
    return node

def referTo (name : String) : Build Node := do
  match (← get).anchors.get? name with
  | none => refuse
  | some target => do
    let id := (← get).references
    modify fun builder => { builder with references := id + 1 }
    return .reference id name target

mutual

/-- Reads a node. `inBlock` tells whether blocks may begin here, and `bareItems` whether items may
stand here without a block of their own. -/
def node : Nat → Bool → Bool → Build Node
  | 0, _, _ => refuse
  | turns + 1, inBlock, bareItems => do
    match ← peek with
    | .reference name => do
      skip
      referTo name
    | _ => do
      let known ← properties
      let tag ← match known.tag with
        | some (handle, suffix) => tagOf handle suffix
        | none => pure ""
      match ← peek with
      | .scalar text isPlain => do
        let place ← announce known.anchor
        skip
        keep place (.scalar tag text isPlain)
      | .item =>
        if bareItems then do
          let place ← announce known.anchor
          keep place (.list (← bareList turns))
        else missing known tag
      | .openList => do
        let place ← announce known.anchor
        skip
        keep place (.list (← listItems turns true))
      | .openMap => do
        let place ← announce known.anchor
        skip
        keep place (.map (← mapEntries turns true))
      | .blockList =>
        if inBlock then do
          let place ← announce known.anchor
          skip
          keep place (.list (← blockItems turns))
        else missing known tag
      | .blockMap =>
        if inBlock then do
          let place ← announce known.anchor
          skip
          keep place (.map (← blockEntries turns))
        else missing known tag
      | _ => missing known tag

def missing (known : Properties) (tag : String) : Build Node := do
  if known.anchor.isNone && known.tag.isNone then refuse
  keep (← announce known.anchor) (.nothing tag)

def nodeUnless : Nat → List Lexeme → Bool → Bool → Build Node
  | 0, _, _, _ => refuse
  | turns + 1, enders, inBlock, bareItems => do
    if ← nextIsIn enders then return .nothing "" else node turns inBlock bareItems

def blockItems : Nat → Build (List Node)
  | 0 => refuse
  | turns + 1 => do
    if ← skipIf .item then
      let first ← nodeUnless turns [.item, .blockEnd] true false
      return first :: (← blockItems turns)
    else if ← skipIf .blockEnd then return []
    else refuse

def bareList : Nat → Build (List Node)
  | 0 => refuse
  | turns + 1 => do
    if ← skipIf .item then
      let first ← nodeUnless turns [.item, .key, .value, .blockEnd] true false
      return first :: (← bareList turns)
    else return []

def blockEntries : Nat → Build (List (Node × Node))
  | 0 => refuse
  | turns + 1 => do
    if ← skipIf .key then
      let key ← nodeUnless turns [.key, .value, .blockEnd] true true
      let value ←
        if ← skipIf .value then nodeUnless turns [.key, .value, .blockEnd] true true
        else pure (.nothing "")
      return (key, value) :: (← blockEntries turns)
    else if ← skipIf .blockEnd then return []
    else refuse

def listItems : Nat → Bool → Build (List Node)
  | 0, _ => refuse
  | turns + 1, isFirst => do
    if ← skipIf .closeList then return []
    if !isFirst then
      if !(← skipIf .comma) then refuse
    if ← skipIf .closeList then return []
    let first ←
      if ← skipIf .key then singleEntry turns else node turns false false
    return first :: (← listItems turns false)

def singleEntry : Nat → Build Node
  | 0 => refuse
  | turns + 1 => do
    let key ←
      if ← nextIsIn [.value, .comma, .closeList] then do
        skip
        pure (.nothing "")
      else node turns false false
    let value ←
      if ← skipIf .value then nodeUnless turns [.comma, .closeList] false false
      else pure (.nothing "")
    return .map [(key, value)]

def mapEntries : Nat → Bool → Build (List (Node × Node))
  | 0, _ => refuse
  | turns + 1, isFirst => do
    if ← skipIf .closeMap then return []
    if !isFirst then
      if !(← skipIf .comma) then refuse
    if ← skipIf .closeMap then return []
    if ← skipIf .key then
      let key ← nodeUnless turns [.value, .comma, .closeMap] false false
      let value ←
        if ← skipIf .value then nodeUnless turns [.comma, .closeMap] false false
        else pure (.nothing "")
      return (key, value) :: (← mapEntries turns false)
    else
      let key ← node turns false false
      return (key, .nothing "") :: (← mapEntries turns false)

end

/-- Reads the directives before a document. -/
def directives : Nat → Bool → Build Bool
  | 0, _ => refuse
  | turns + 1, hasVersion => do
    match ← peek with
    | .directive (.version major minor) => do
      if hasVersion || major != 1 || minor != 1 then refuse
      skip
      let _ ← directives turns true
      return true
    | .directive (.handle name start) => do
      if (← get).handles.contains name then refuse
      modify fun builder => { builder with handles := builder.handles.set name start }
      skip
      let _ ← directives turns hasVersion
      return true
    | _ => return false

def addHandle (name start : String) : Build Unit :=
  modify fun builder =>
    if builder.handles.contains name then builder
    else { builder with handles := builder.handles.set name start }

def isBetween : Lexeme → Bool
  | .directive _ | .documentStart | .documentEnd | .streamEnd => true
  | _ => false

def document (turns : Nat) : Build (Option Document) := do
  if (← peek) == .streamEnd then return none
  let hasDirectives ← directives turns false
  addHandle "!" "!"
  addHandle "!!" Tag.standardStart
  let root ←
    if ← skipIf .documentStart then
      if isBetween (← peek) then pure (.nothing "") else node turns true false
    else if hasDirectives then refuse
    else node turns true false
  let _ ← peek
  let builder ← get
  return some { root, anchored := builder.anchored, references := builder.references }

end Build

def parse (text : String) : Option (Option Document) := do
  let turns := 16 * text.length + 64
  let ((document, _), _) ← ((Build.document turns).run {}).run (Scanner.ofText text)
  some document

end Stubwise.Yaml
