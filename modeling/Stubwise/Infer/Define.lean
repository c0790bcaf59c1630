import Stubwise.Infer.Expr
import Stubwise.Infer.Import

/-!
Definitions of functions and classes. The body of a function is not run when it is defined, but when
it is first called, or at the end.
-/

namespace Stubwise

def Expr.storedAttrs (receiver : String) (expr : Expr) : List String :=
  match expr with
  | .lambda .. => []
  | expr =>
    (match expr with
      | .access _ (.name _ id _) attr .store => if id == receiver then [attr] else []
      | _ => [])
      ++ expr.children.attach.flatMap fun ⟨child, _⟩ => child.storedAttrs receiver
termination_by sizeOf expr
decreasing_by exact Expr.sizeOf_lt_of_mem_children (by assumption)

namespace Stmt

mutual

/-- The expressions that run when a statement does. -/
def innerExprs : Stmt → List Expr
  | branch _ test body orElse => test :: innerExprsAll body ++ innerExprsAll orElse
  | loop _ test body orElse => test :: innerExprsAll body ++ innerExprsAll orElse
  | each _ target iter body orElse _ =>
    target :: iter :: innerExprsAll body ++ innerExprsAll orElse
  | manage _ items body _ =>
    items.flatMap (fun item => item.context :: item.target.toList) ++ innerExprsAll body
  | guarded _ body handlers orElse finish =>
    innerExprsAll body ++ handlerExprs handlers ++ innerExprsAll orElse ++
      innerExprsAll finish
  | stmt => stmt.ownExprs

def innerExprsAll : List Stmt → List Expr
  | [] => []
  | stmt :: rest => stmt.innerExprs ++ innerExprsAll rest

def handlerExprs : List Handler → List Expr
  | [] => []
  | ⟨_, type, _, body⟩ :: rest => type.toList ++ innerExprsAll body ++ handlerExprs rest

end

end Stmt

namespace FunctionDef

def receiver? (definition : FunctionDef) : Option String :=
  let decorators := definition.decoratorNames
  if decorators.contains "staticmethod" || decorators.contains "classmethod" then none
  else definition.params.positional.head?.map (·.name)

def assignedAttrs (definition : FunctionDef) : List String :=
  match definition.receiver? with
  | none => []
  | some receiver =>
    NameSet.insertAll [] ((Stmt.innerExprsAll definition.body).flatMap (·.storedAttrs receiver))

end FunctionDef

namespace ClassDef

def attributeMethods (body : List Stmt) : Table (List Nat) :=
  body.foldl (fun table stmt => match stmt with
    | .function definition => definition.assignedAttrs.foldl (add definition.mark.node) table
    | _ => table) []
where
  add (method : Nat) (table : Table (List Nat)) (attr : String) : Table (List Nat) :=
    table.set attr ((table.get? attr).getD [] ++ [method])

end ClassDef

namespace Func

/-- Merges a definition with the function that it takes the place of. -/
def redefine (previous : Ty) (function : Func) : Func :=
  match previous with
  | .func known =>
    if known.hasDecorator "overload" then
      if function.hasDecorator "overload" then
        { known with overloads := known.overloads ++ function.overloads }
      else known
    else if known.hasDecorator "property" &&
        (function.hasDecorator "setter" || function.hasDecorator "deleter") then known
    else function
  | _ => function

end Func

namespace Walker

abbrev inferHeader (walker : Walker) (exprs : List Expr) : Infer Unit :=
  exprs.forM fun expr => reportingAt expr.position do
    let _ ← walker.infer false expr

def defineFunction (walker : Walker) (definition : FunctionDef) : Infer Unit := do
  walker.inferHeader definition.decorators
  walker.inferHeader
    (definition.params.defaults ++ definition.params.kwDefaults.filterMap id)
  let (signature, faults) ← Hint.signature walker.typeNamed definition
  faults.forM (Session.reportFault · definition.mark.position)
  let decorators := definition.decoratorNames
  let self := if walker.cls.isSome then definition.receiver?.getD "" else ""
  let info : FuncInfo :=
    { definition, frame := walker.frame, cls := walker.cls, classes := walker.classes, signature,
      decorators, self }
  let number := definition.mark.node
  modify fun session => { session with
    functions := session.functions.insert number info
    pending := session.pending.push number }
  let function : Func := { name := definition.name, overloads := [signature], decorators }
  let previous := ((← get).frames.frame walker.frame).bindings.get? definition.name
  let function := match previous with
    | some t => Func.redefine t function
    | none => function
  Session.storeName walker.frame definition.name (.func function)

abbrev baseType? (walker : Walker) (base : Expr) : Infer (Option Ty) := do
  match ← attempt (walker.hintType base) with
  | .ok t => return some t
  | .error fault => do
    Session.reportFault fault base.position
    return none

def className (walker : Walker) (name : String) : String :=
  match walker.classes.getLast? with
  | some outer => outer.ref.name ++ "." ++ name
  | none => name

def declareClass (walker : Walker) (name : String) (bases : List Expr)
    (keywords : List NamedArg) (decorators : List Expr) : Infer Class := do
  walker.inferHeader decorators
  let bases := (← bases.mapM walker.baseType?).filterMap id
  walker.inferHeader (keywords.map (·.value))
  let ref : ClassRef := { module := (← get).module, name := walker.className name }
  let cls : Class := { ref, decorators := decorators.map (·.dottedTail) }
  Session.defineClass (cls.withBases bases)

abbrev completeClass (cls : Class) (frame : Nat) (body : List Stmt) : Infer Unit := do
  let bindings := ((← get).frames.frame frame).sortedBindings
  let methods := ClassDef.attributeMethods body
  Session.modifyMembers cls fun table =>
    let table := bindings.foldl (fun table (name, t) => table.set name t) table
    if methods.isEmpty then table
    else { table with
      names := NameSet.insertAll table.names methods.keys
      origin := .assigned methods }

end Walker

end Stubwise
