import Stubwise.Yaml.Node
import Stubwise.Yaml.Value

namespace Stubwise.Yaml

inductive Fault where
  | refused
  | unusableKey
  deriving DecidableEq, Repr, Inhabited

structure Reading where
  visits : Nat := 0
  borrowed : Nat := 0
  following : List Nat := []
  isSpoilt : Bool := false
  deriving Inhabited

abbrev Decode := ReaderT Document (StateT Reading (Except Fault))

namespace Decode

def refuse {α : Type} : Decode α :=
  throw .refused

def spoil : Decode Unit :=
  modify fun reading => { reading with isSpoilt := true }

/-- Whether too many visits are borrowed. -/
def isExcessive (borrowed visits : Nat) : Bool :=
  let low := 400000
  let high := 4000000
  let above := min (visits - low) (high - low)
  100 < borrowed && 1000 < visits &&
    visits * (99 * (high - low) - 89 * above) < borrowed * 100 * (high - low)

def visit : Decode Unit := do
  modify fun reading => { reading with
    visits := reading.visits + 1
    borrowed := if reading.following.isEmpty then reading.borrowed else reading.borrowed + 1 }
  let reading ← get
  if isExcessive reading.borrowed reading.visits then refuse

def targetAt (place : Nat) : Decode Node :=
  return (← read).anchored[place]?.getD (.nothing "")

def standsFor : Node → Decode Node
  | .reference _ _ target => targetAt target
  | node => return node

/-- Visits a node, and what it refers to. -/
def visiting {α : Type} (act : Node → Decode α) : Node → Decode α
  | .reference id _ target => do
    visit
    let outer := (← get).following
    if outer.contains id then refuse
    modify fun reading => { reading with following := id :: outer }
    visit
    let result ← act (← targetAt target)
    modify fun reading => { reading with following := outer }
    return result
  | node => do
    visit
    act node

def scalarValue (tag text : String) (isPlain : Bool) : Decode Value :=
  match Value.ofScalar? tag text isPlain with
  | some value => return value
  | none => refuse

/-- Reads a scalar by what its value and its text stand for. -/
def scalar {α : Type} (convert : Value → String → Option α) : Node → Decode (Option α) :=
  visiting fun
    | .scalar tag text isPlain => do
      let value ← scalarValue tag text isPlain
      if value == .null then return none
      let result := convert value text
      if result.isNone then spoil
      return result
    | _ => do
      spoil
      return none

def text : Node → Decode (Option Text.Raw) :=
  scalar fun
    | .text content, _ => some content
    | _, written => some (.ofString written)

def leastInt : Int :=
  -9223372036854775808

/-- A number loses its fraction. -/
def int : Node → Decode (Option Int) :=
  scalar fun value _ => match value with
    | .int value => if value ≤ Value.largestSigned then some value else none
    | .float value =>
      if value ≤ Value.largestSigned then some value
      else if value == Value.largestSigned + 1 then some leastInt
      else none
    | .unbounded true => some leastInt
    | _ => none

def yesWords : List Text.Raw :=
  ["y", "Y", "yes", "Yes", "YES", "on", "On", "ON"].map .ofString

def noWords : List Text.Raw :=
  ["n", "N", "no", "No", "NO", "off", "Off", "OFF"].map .ofString

def bool : Node → Decode (Option Bool) :=
  scalar fun value _ => match value with
    | .bool value => some value
    | .text content =>
      if yesWords.contains content then some true
      else if noWords.contains content then some false
      else none
    | _ => none

/-- A list of texts. Items that are null are left out, and null is the empty list. -/
def texts : Node → Decode (Option (List Text.Raw)) :=
  visiting fun
    | .list items => some <$> items.filterMapM text
    | .scalar tag text isPlain => do
      if (← scalarValue tag text isPlain) == .null then return some []
      spoil
      return none
    | _ => do
      spoil
      return none

inductive KeyForm where
  | scalar (text : String)
  | list | map
  | reference (name : String)
  deriving DecidableEq

def KeyForm.ofNode : Node → KeyForm
  | .scalar _ text _ => scalar text
  | .list _ => list
  | .map _ => map
  | .reference _ name _ => reference name

abbrev Entries := List (Node × Node)

def repeatsKey : Entries → Bool
  | [] => false
  | (key, _) :: rest =>
    rest.any (fun entry => KeyForm.ofNode entry.1 == KeyForm.ofNode key) || repeatsKey rest

def isMergeKey : Node → Bool
  | .scalar tag text isPlain => text == "<<" && ((tag.isEmpty && isPlain) || tag == "!!merge")
  | _ => false

def mergeValue? (entries : Entries) : Option Node :=
  (entries.find? fun entry => isMergeKey entry.1).map (·.2)

def mergedMaps (value : Node) : Decode (List Node) := do
  let maps := match value with
    | .list items => items
    | node => [node]
  for map in maps do
    match ← standsFor map with
    | .map _ => pure ()
    | _ => refuse
  return maps

def isCompound (key : Node) : Decode Bool := do
  match ← standsFor key with
  | .scalar _ _ _ => return false
  | _ => return true

/-- Visits a node and all below it. -/
def sweep : Nat → Bool → Node → Decode Bool
  | 0, _ => fun _ => refuse
  | turns + 1, isMerged => visiting fun
    | .scalar tag text isPlain => do
      let _ ← scalarValue tag text isPlain
      return true
    | .list items => do
      for item in items do
        let _ ← sweep turns false item
      return true
    | .map entries => do
      if repeatsKey entries then
        spoil
        return false
      for (key, value) in entries do
        if !isMergeKey key then
          if ← sweep turns false key then
            if ← isCompound key then throw (if isMerged then .unusableKey else .refused)
            let _ ← sweep turns false value
      match mergeValue? entries with
      | none => return true
      | some merged => do
        if !isMerged then
          for (key, _) in entries do
            let _ ← sweep turns false key
        for map in ← mergedMaps merged do
          let _ ← sweep turns true map
        return true
    | .reference _ _ _ => return false

def keyText? (key : Node) : Decode (Option String) := do
  match ← standsFor key with
  | .scalar tag text isPlain =>
    match Value.ofScalar? tag text isPlain with
    | some (.text content) => return some content.shown
    | _ => return none
  | _ => return none

/-- The names that a mapping has before others are merged into it. -/
def namesOf (turns : Nat) : Entries → Decode (List String)
  | [] => return []
  | (key, _) :: rest => do
    if ← sweep turns false key then
      if ← isCompound key then throw .unusableKey
    let name ← keyText? key
    return name.toList ++ (← namesOf turns rest)

abbrev Fields (α : Type) := List (String × (α → Node → Decode α))

variable {α : Type}

def Fields.set? (fields : Fields α) (name : String) : Option (α → Node → Decode α) :=
  fields.lookup name

/-- Sets the fields that the entries of one mapping give. -/
def setEntries (fields : Fields α) :
    List String → Option (List String) → α → Entries → Decode (Option (List String) × α)
  | _, taken, value, [] => return (taken, value)
  | done, taken, value, (key, node) :: rest => do
    if isMergeKey key then setEntries fields done taken value rest
    else match ← text key with
      | none => setEntries fields done taken value rest
      | some content => do
        let name := content.shown
        if taken.any (·.contains name) then setEntries fields done taken value rest
        else
          let taken := taken.map (name :: ·)
          match fields.set? name with
          | none => setEntries fields done taken value rest
          | some set =>
            if done.contains name then
              spoil
              setEntries fields done taken value rest
            else setEntries fields (name :: done) taken (← set value node) rest

/-- Reads a mapping into a record. -/
def mapping (fields : Fields α) :
    Nat → Option (List String) → α → Node → Decode (Option (List String) × α)
  | 0, _, _ => fun _ => refuse
  | turns + 1, taken, value => visiting fun
    | .map entries => do
      if repeatsKey entries then
        spoil
        return (taken, value)
      let (taken, value) ← setEntries fields [] taken value entries
      match mergeValue? entries with
      | none => return (taken, value)
      | some merged => do
        let names ← match taken with
          | some names => pure names
          | none => namesOf turns entries
        let mut names := some names
        let mut value := value
        for map in ← mergedMaps merged do
          (names, value) ← mapping fields turns names value map
        return (if taken.isSome then names else none, value)
    | .scalar tag text isPlain => do
      if (← scalarValue tag text isPlain) != .null then spoil
      return (taken, value)
    | _ => do
      spoil
      return (taken, value)

def document (fields : Fields α) (turns : Nat) (value : α) : Decode α := do
  visit
  let (_, value) ← mapping fields turns none value (← read).root
  if (← get).isSpoilt then refuse
  return value

end Decode

mutual

def Node.depth : Node → Nat
  | .scalar _ _ _ | .reference _ _ _ => 1
  | .list items => itemsDepth items + 1
  | .map entries => entriesDepth entries + 1

def Node.itemsDepth : List Node → Nat
  | [] => 0
  | item :: rest => max item.depth (itemsDepth rest)

def Node.entriesDepth : List (Node × Node) → Nat
  | [] => 0
  | (key, value) :: rest => max (max key.depth value.depth) (entriesDepth rest)

end

def Document.depth (document : Document) : Nat :=
  let deepest := document.anchored.foldl (fun depth node => max depth node.depth) document.root.depth
  (deepest + 1) * (document.references + 1)

def Document.decode {α : Type} (document : Document) (fields : Decode.Fields α) (start : α) :
    Except Fault α :=
  ((Decode.document fields (document.depth + 1) start).run document).run' {}

end Stubwise.Yaml
