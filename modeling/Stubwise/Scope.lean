import Stubwise.Data.Table
import Stubwise.Fault
import Stubwise.Ty

/-!
Lexical frames. A frame knows the names that its code binds and those that `global` and `nonlocal`
send elsewhere; loading, storing and deleting a name follow the same routes.
-/

namespace Stubwise

inductive FrameKind where
  | builtins | module | function | class_ | comprehension
  deriving DecidableEq, Repr, Inhabited

def FrameKind.text : FrameKind → String
  | builtins => "builtins"
  | module => "module"
  | function => "function"
  | class_ => "class"
  | comprehension => "comprehension"

structure Frame where
  kind : FrameKind := .builtins
  name : String := "builtins"
  /-- The names bound by the code of the frame, whether or not it has run. -/
  locals : List String := []
  globals : List String := []
  nonlocals : List String := []
  bindings : Table Ty := []
  parent : Option Nat := none
  deriving Inhabited

namespace Frame

def builtins (names : List String) : Frame :=
  { locals := names }

def declares (frame : Frame) (name : String) : Bool :=
  frame.locals.contains name || frame.globals.contains name || frame.nonlocals.contains name

def declare (frame : Frame) (name : String) : Frame :=
  if frame.globals.contains name || frame.nonlocals.contains name then frame
  else { frame with locals := NameSet.insert frame.locals name }

def bind (frame : Frame) (name : String) (t : Ty) : Frame :=
  { frame with
    locals := NameSet.insert frame.locals name
    bindings := frame.bindings.set name t }

def unbind (frame : Frame) (name : String) : Frame :=
  { frame with bindings := frame.bindings.erase name }

def sortedBindings (frame : Frame) : List (String × Ty) :=
  frame.bindings.mergeSort fun a b => decide (a.1 ≤ b.1)

def nameList (names : List String) : String :=
  "[" ++ ", ".intercalate (sortNames names) ++ "]"

def text (frame : Frame) : String :=
  if frame.kind == .builtins then "<builtins>"
  else
    let globals := if frame.globals.isEmpty then "" else s!" global={nameList frame.globals}"
    let nonlocals :=
      if frame.nonlocals.isEmpty then "" else s!" nonlocal={nameList frame.nonlocals}"
    s!"<{frame.kind.text} {frame.name} locals={nameList frame.locals}" ++ globals ++ nonlocals
      ++ ">"

end Frame

structure Frames where
  all : Array Frame := #[]
  deriving Inhabited

inductive Loaded where
  | found (t : Ty)
  /-- The name is a builtin whose type has not been asked for yet. -/
  | unresolved (frame : Nat)
  | unbound (diagnostic : Diagnostic)
  | crash (crash : Crash)
  deriving Inhabited

def Loaded.askedFrom (loaded : Loaded) (chain : List String) : Loaded :=
  match loaded with
  | .unbound diagnostic => .unbound { diagnostic with frames := chain }
  | other => other

namespace Frames

def frame (frames : Frames) (id : Nat) : Frame :=
  frames.all.getD id {}

def modify (frames : Frames) (id : Nat) (change : Frame → Frame) : Frames :=
  { all := frames.all.modify id change }

def add (frames : Frames) (frame : Frame) : Frames × Nat :=
  ({ all := frames.all.push frame }, frames.all.size)

def bind (frames : Frames) (id : Nat) (name : String) (t : Ty) : Frames :=
  frames.modify id (·.bind name t)

def parent? (frames : Frames) (id : Nat) : Option Nat :=
  (frames.frame id).parent.filter (· < id)

theorem parent?_lt {frames : Frames} {id outer : Nat} (found : frames.parent? id = some outer) :
    outer < id := by
  have ⟨_, smaller⟩ := Option.filter_eq_some_iff.mp found
  exact of_decide_eq_true smaller

def chain (frames : Frames) (id : Nat) : List Nat :=
  match _found : frames.parent? id with
  | none => [id]
  | some outer => id :: frames.chain outer
termination_by id
decreasing_by exact parent?_lt _found

def chainTexts (frames : Frames) (id : Nat) : List String :=
  (frames.chain id).map fun outer => (frames.frame outer).text

def module (frames : Frames) (id : Nat) : Nat :=
  match (frames.chain id).reverse with
  | _ :: inside :: _ => inside
  | _ => id

def escape (frames : Frames) (id : Nat) : Nat :=
  ((frames.chain id).find? fun outer => (frames.frame outer).kind != .comprehension).getD id

abbrev unboundAt (frames : Frames) (id : Nat) (message : String) : Diagnostic :=
  { code := .unboundName, message, frames := frames.chainTexts id }

abbrev undefinedName (frames : Frames) (id : Nat) (name : String) : Diagnostic :=
  frames.unboundAt id s!"name {Text.quote name} is not defined"

def loadLocal (frames : Frames) (id : Nat) (name : String) : Loaded :=
  let frame := frames.frame id
  match frame.bindings.get? name with
  | some t => .found t
  | none =>
    if frame.kind == .builtins then .unresolved id
    else .unbound (frames.unboundAt id
      s!"local variable {Text.quote name} referenced before assignment")

/-- The nearest frame around a frame that says something about a name. Class frames are not seen
from inside. -/
def declaring? (frames : Frames) (id : Nat) (name : String) : Option Nat :=
  match _found : frames.parent? id with
  | none => none
  | some outer =>
    let frame := frames.frame outer
    if frame.kind != .class_ && frame.declares name then some outer
    else frames.declaring? outer name
termination_by id
decreasing_by exact parent?_lt _found

theorem declaring?_lt {frames : Frames} {id outer : Nat} {name : String}
    (found : frames.declaring? id name = some outer) : outer < id := by
  induction id using Nat.strongRecOn with
  | ind id ih =>
    unfold declaring? at found
    split at found
    · cases found
    · rename_i next step
      have below := parent?_lt step
      dsimp only at found
      split at found
      · cases found
        exact below
      · exact Nat.lt_trans (ih next below found) below

def load (frames : Frames) (id : Nat) (name : String) : Loaded :=
  let frame := frames.frame id
  if frame.locals.contains name then frames.loadLocal id name
  else if frame.nonlocals.contains name then
    match _found : frames.parent? id with
    | some outer => frames.load outer name
    | none => .crash .missingPart
  else if frame.globals.contains name then
    let module := frames.module id
    if (frames.frame module).locals.contains name then frames.loadLocal module name
    else match frames.parent? module with
      | none => .crash .endless
      | some outer => if _inner : outer < id then frames.load outer name else .crash .endless
  else match _found : frames.declaring? id name with
    | some outer => (frames.load outer name).askedFrom (frames.chainTexts id)
    | none => .unbound (frames.undefinedName id name)
termination_by id
decreasing_by
  · exact parent?_lt _found
  · exact _inner
  · exact declaring?_lt _found

/-- The frame that storing a name binds it in, by the same routes as loading. A name that is new to
a comprehension is bound in the frame around it. -/
def storeTarget (frames : Frames) (id : Nat) (name : String) : Except Stop Nat :=
  let frame := frames.frame id
  if frame.globals.contains name then .ok (frames.module id)
  else if frame.nonlocals.contains name then
    let lost := Except.error (.ofDiagnostic (frames.unboundAt id
      s!"no binding for nonlocal {Text.quote name} found"))
    match _found : frames.parent? id with
    | none => lost
    | some outer =>
      if (frames.frame outer).kind == .builtins then lost else frames.storeTarget outer name
  else if frame.locals.contains name then .ok id
  else if frame.kind == .comprehension then
    if _outside : frames.escape id < id then frames.storeTarget (frames.escape id) name
    else .error (.crash .endless)
  else .ok id
termination_by id
decreasing_by
  · exact parent?_lt _found
  · exact _outside

def store (frames : Frames) (id : Nat) (name : String) (t : Ty) : Except Stop Frames :=
  (frames.storeTarget id name).map fun target => frames.bind target name t

def deleteTarget (frames : Frames) (id : Nat) (name : String) : Except Stop Nat :=
  let frame := frames.frame id
  if frame.globals.contains name then
    if _outside : frames.module id < id then frames.deleteTarget (frames.module id) name
    else .error (.crash .endless)
  else if frame.nonlocals.contains name then
    match _found : frames.parent? id with
    | some outer => frames.deleteTarget outer name
    | none => .error (.crash .missingPart)
  else if frame.locals.contains name then
    if frame.bindings.contains name then .ok id
    else .error (.ofDiagnostic (frames.unboundAt id
      s!"cannot delete {Text.quote name}: it is not bound"))
  else .error (.ofDiagnostic (frames.undefinedName id name))
termination_by id
decreasing_by
  · exact _outside
  · exact parent?_lt _found

def delete (frames : Frames) (id : Nat) (name : String) : Except Stop Frames :=
  (frames.deleteTarget id name).map fun target => frames.modify target (·.unbind name)

end Frames

end Stubwise
