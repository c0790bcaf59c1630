import Stubwise.Infer.Define

/-!
Execution of statements. A statement that fails is reported, and execution goes on with the next
one; names that it was to bind are bound to `Any`.
-/

namespace Stubwise.Walker

mutual

def caught (engine : Engine) : Ty → Infer Ty
  | .type t => return t
  | .tuple elements => do engine.world.joinAll (← caughtEach engine elements)
  | _ => return .any

def caughtEach (engine : Engine) : List Ty → Infer (List Ty)
  | [] => return []
  | t :: rest => do
    let first ← caught engine t
    return first :: (← caughtEach engine rest)

end

def execAssign (walker : Walker) (targets : List Expr) (value : Expr) : Infer Unit := do
  match ← attempt (walker.infer false value) with
  | .ok t => walker.assignAll t targets
  | .error fault => do
    walker.bindAnyAll targets
    throw (.fault fault)

def execAugAssign (walker : Walker) (position : Position) (target : Expr) (op : BinaryOp)
    (value : Expr) : Infer Unit := do
  let current ← walker.infer true target
  let operand ← walker.infer false value
  let t ← placingAt position (walker.engine.inPlace op current operand)
  walker.assign t target

/-- Binds a target to its declared type. -/
def execAnnAssign (walker : Walker) (target hint : Expr) (value : Option Expr) : Infer Unit := do
  let declared ← anyOnFault hint.position (walker.hintType hint)
  match value with
  | some value => do
    match ← attempt (walker.infer false value) with
    | .ok _ => walker.assign declared target
    | .error fault => do
      walker.bindAny target
      throw (.fault fault)
  | none => do
    if ((← get).frames.frame walker.frame).kind == .class_ then walker.assign declared target

mutual

def execDelete (walker : Walker) : Expr → Infer Unit
  | .name mark id _ => placingAt mark.position (Session.deleteName walker.frame id)
  | .tuple _ elements _ => execDeleteAll walker elements
  | .list _ elements _ => execDeleteAll walker elements
  | .access mark value attr _ => do
    let base ← walker.infer true value
    Session.ofExcept (World.assignable base attr mark.position)
    match base with
    | .object id _ =>
      modify fun session =>
        { session with instances := session.instances.deleteAttr id attr }
    | _ => return ()
  | .subscript mark value index _ => do
    let base ← walker.infer true value
    let index ← walker.infer false index
    match ← attempt (walker.engine.callMethod base "__delitem__" [index]) with
    | .ok _ => return ()
    | .error fault =>
      if fault.lacksAttribute then return ()
      else throw (.fault (fault.placed mark.position))
  | target => throw (misuse target.position s!"cannot delete {target.targetDescription}")

def execDeleteAll (walker : Walker) : List Expr → Infer Unit
  | [] => return ()
  | target :: rest => do
    execDelete walker target
    execDeleteAll walker rest

end

abbrev giveBack (t : Ty) : Infer Unit :=
  modify fun session => { session with returned := t :: session.returned }

def execReturn (walker : Walker) (position : Position) (value : Option Expr) : Infer Unit := do
  if walker.function.isNone then throw (notInferred position "'return' outside function")
  match value with
  | none => giveBack .noneType
  | some value => do
    match ← attempt (walker.infer false value) with
    | .ok t => giveBack t
    | .error fault => do
      giveBack .any
      throw (.fault fault)

abbrev bindLoop (walker : Walker) (position : Position) (target iter : Expr) : Infer Unit := do
  let bound ← attempt do
    let iterated ← walker.infer false iter
    let element ← placingAt iter.position (walker.engine.element iterated)
    walker.assign element target
  match bound with
  | .ok _ => return ()
  | .error fault => do
    walker.bindAny target
    Session.reportFault fault position

def enterItem (walker : Walker) (item : WithItem) : Infer Unit := do
  let position := item.context.position
  let manager ← anyOnFault position (walker.infer false item.context)
  match item.target with
  | none => return ()
  | some target => do
    let entered ← anyOnFault position (walker.engine.callMethod manager "__enter__" [])
    reportingAt target.position (walker.assign entered target)

/-- Binds the name of an `except` clause. -/
def bindHandler (walker : Walker) (type : Option Expr) (name : String) :
    Infer (Option Fault) := do
  let (exception, failed) ← match type with
    | none => pure (Ty.any, none)
    | some type => do
      match ← attempt (walker.infer false type) with
      | .ok t => pure (← caught walker.engine t, none)
      | .error fault => pure (Ty.any, some fault)
  if name.isEmpty then return failed
  match ← attempt (Session.storeName walker.frame name exception) with
  | .ok _ => return failed
  | .error fault => return failed.or (some fault)

abbrev testFault (walker : Walker) (test : Expr) : Infer (Option Fault) := do
  match ← attempt (walker.infer false test) with
  | .ok _ => return none
  | .error fault => return some fault

def throwIfSome : Option Fault → Infer Unit
  | none => return ()
  | some fault => throw (.fault fault)

mutual

def exec (walker : Walker) : Stmt → Infer Unit
  | .expr _ value => do
    let _ ← walker.infer false value
  | .assign _ targets value => walker.execAssign targets value
  | .augAssign mark target op value => walker.execAugAssign mark.position target op value
  | .annAssign _ target hint value => walker.execAnnAssign target hint value
  | .delete _ targets => walker.execDeleteAll targets
  | .pass _ | .leave _ | .next _ | .global _ _ | .nonlocal _ _ => return ()
  | .give mark value => walker.execReturn mark.position value
  | .raise _ error cause => do
    walker.inferOption error
    walker.inferOption cause
  | .assert _ test message => do
    let _ ← walker.infer false test
    walker.inferOption message
  | .branch _ test body orElse => do
    let failed ← walker.testFault test
    execBody walker body
    execBody walker orElse
    throwIfSome failed
  | .loop _ test body orElse => do
    let failed ← walker.testFault test
    execBody walker body
    execBody walker orElse
    throwIfSome failed
  | .each mark target iter body orElse _ => do
    walker.bindLoop mark.position target iter
    execBody walker body
    execBody walker orElse
  | .manage _ items body _ => do
    items.forM walker.enterItem
    execBody walker body
  | .guarded _ body handlers orElse finish => do
    execBody walker body
    execHandlers walker handlers
    execBody walker orElse
    execBody walker finish
  | .function definition => walker.defineFunction definition
  | .class_ ⟨_, name, bases, keywords, body, decorators⟩ => do
    let cls ← walker.declareClass name bases keywords decorators
    let frame ← Session.addFrame (.ofBody .class_ name body walker.frame)
    execBody { walker with frame, cls := some cls, classes := walker.classes ++ [cls] } body
    completeClass cls frame body
    Session.storeName walker.frame name (.type (.cls cls.ref))
  | .import_ _ names => names.forM walker.importModule
  | .importFrom mark module names level => walker.importFrom mark.position module names level

def execBody (walker : Walker) : List Stmt → Infer Unit
  | [] => return ()
  | stmt :: rest => do
    reportingAt stmt.position (exec walker stmt)
    execBody walker rest

def execHandlers (walker : Walker) : List Handler → Infer Unit
  | [] => return ()
  | ⟨mark, type, name, body⟩ :: rest => do
    let failed ← walker.bindHandler type name
    execBody walker body
    reportingAt mark.position (throwIfSome failed)
    execHandlers walker rest

end

end Stubwise.Walker
