import Stubwise.Scope
import Stubwise.Tree.Walk

namespace Stubwise

namespace Expr

def walrusNames (expr : Expr) : List String :=
  match expr with
  | lambda .. => []
  | expr =>
    (match expr with
      | named _ _ id _ => [id]
      | _ => [])
      ++ expr.children.attach.flatMap fun ⟨child, _⟩ => child.walrusNames
termination_by sizeOf expr
decreasing_by exact Expr.sizeOf_lt_of_mem_children (by assumption)

mutual

def targetNames : Expr → List String
  | name _ id _ => [id]
  | tuple _ elements _ => targetNamesAll elements
  | list _ elements _ => targetNamesAll elements
  | starred _ value _ => value.targetNames
  | access mark value attr context => (access mark value attr context).walrusNames
  | subscript mark value index context => (subscript mark value index context).walrusNames
  | _ => []

def targetNamesAll : List Expr → List String
  | [] => []
  | target :: rest => target.targetNames ++ targetNamesAll rest

end

end Expr

/-- The name an import binds: the one after `as`, else the first part of a dotted name. -/
def ImportName.boundName (imported : ImportName) : String :=
  if imported.asName.isEmpty then String.ofList (imported.name.toList.takeWhile (· != '.'))
  else imported.asName

def WithItem.boundNames (item : WithItem) : List String :=
  item.context.walrusNames ++ (item.target.map (·.targetNames)).getD []

namespace Stmt

mutual

def boundNames : Stmt → List String
  | assign _ targets value => Expr.targetNamesAll targets ++ value.walrusNames
  | augAssign _ target _ value => target.targetNames ++ value.walrusNames
  | annAssign _ target _ value =>
    target.targetNames ++ value.toList.flatMap (·.walrusNames)
  | delete _ targets => Expr.targetNamesAll targets
  | expr _ value => value.walrusNames
  | give _ value => value.toList.flatMap (·.walrusNames)
  | raise _ error cause => (error.toList ++ cause.toList).flatMap (·.walrusNames)
  | assert _ test message => (test :: message.toList).flatMap (·.walrusNames)
  | branch _ test body orElse => test.walrusNames ++ boundNamesAll body ++ boundNamesAll orElse
  | loop _ test body orElse => test.walrusNames ++ boundNamesAll body ++ boundNamesAll orElse
  | each _ target iter body orElse _ =>
    target.targetNames ++ iter.walrusNames ++ boundNamesAll body ++ boundNamesAll orElse
  | manage _ items body _ => items.flatMap (·.boundNames) ++ boundNamesAll body
  | guarded _ body handlers orElse finish =>
    boundNamesAll body ++ handlerNames handlers ++ boundNamesAll orElse ++
      boundNamesAll finish
  | function ⟨_, declared, _, _, _, _, _⟩ => [declared]
  | class_ ⟨_, declared, _, _, _, _⟩ => [declared]
  | import_ _ names => names.map (·.boundName)
  | importFrom _ _ names _ => (names.filter (·.name != "*")).map (·.boundName)
  | _ => []

def boundNamesAll : List Stmt → List String
  | [] => []
  | stmt :: rest => stmt.boundNames ++ boundNamesAll rest

def handlerNames : List Handler → List String
  | [] => []
  | ⟨_, _, caught, body⟩ :: rest =>
    (if caught.isEmpty then [] else [caught]) ++ boundNamesAll body ++ handlerNames rest

end

structure Redirections where
  globals : List String := []
  nonlocals : List String := []

namespace Redirections

def append (a b : Redirections) : Redirections :=
  { globals := a.globals ++ b.globals, nonlocals := a.nonlocals ++ b.nonlocals }

instance : Append Redirections :=
  ⟨append⟩

end Redirections

mutual

def redirections : Stmt → Redirections
  | global _ names => { globals := names }
  | nonlocal _ names => { nonlocals := names }
  | branch _ _ body orElse => redirectionsAll body ++ redirectionsAll orElse
  | loop _ _ body orElse => redirectionsAll body ++ redirectionsAll orElse
  | each _ _ _ body orElse _ => redirectionsAll body ++ redirectionsAll orElse
  | manage _ _ body _ => redirectionsAll body
  | guarded _ body handlers orElse finish =>
    redirectionsAll body ++ handlerRedirections handlers ++ redirectionsAll orElse ++
      redirectionsAll finish
  | _ => {}

def redirectionsAll : List Stmt → Redirections
  | [] => {}
  | stmt :: rest => stmt.redirections ++ redirectionsAll rest

def handlerRedirections : List Handler → Redirections
  | [] => {}
  | ⟨_, _, _, body⟩ :: rest => redirectionsAll body ++ handlerRedirections rest

end

end Stmt

namespace Frame

def extend (frame : Frame) (body : List Stmt) : Frame :=
  let sent := Stmt.redirectionsAll body
  let globals := NameSet.insertAll frame.globals sent.globals
  let nonlocals := NameSet.insertAll frame.nonlocals sent.nonlocals
  let locals := NameSet.insertAll frame.locals (Stmt.boundNamesAll body)
  { frame with
    globals, nonlocals
    locals := NameSet.remove (NameSet.remove locals globals) nonlocals }

def ofBody (kind : FrameKind) (name : String) (body : List Stmt) (parent : Nat) : Frame :=
  Frame.extend { kind, name, parent := some parent } body

/-- The frame of a comprehension. Only the targets of its clauses are local to it. -/
def ofClauses (clauses : List Comprehension) (parent : Nat) : Frame :=
  { kind := .comprehension
    name := "<comprehension>"
    locals := NameSet.insertAll [] (clauses.flatMap fun clause => clause.target.targetNames)
    parent := some parent }

end Frame

end Stubwise
