import Stubwise.Infer.Stmt

/-!
Running modules. The body of a function is run once, when its result is first needed; one that is
reached again while it runs gives `Any`.
-/

namespace Stubwise

namespace FuncInfo

/-- The type that a parameter has in the body. -/
def paramType (info : FuncInfo) (isFirst : Bool) (param : Formal) : Ty :=
  let positional := param.kind == .positional || param.kind == .positionalOnly
  match param.type, info.cls with
  | none, some cls =>
    if isFirst && positional && !info.isStatic then
      if info.isClassMethod then .type cls.selfType else cls.selfType
    else collected param.kind .any
  | t, _ => collected param.kind (t.getD .any)
where
  collected (kind : ParamKind) (t : Ty) : Ty :=
    match kind with
    | .varArgs => .tupleOf t
    | .varKeywords => .dictOf .strType t
    | _ => t

def bindParams (info : FuncInfo) (frame : Nat) : Bool → List Formal → Infer Unit
  | _, [] => return ()
  | isFirst, param :: rest => do
    Session.modifyFrame frame (·.declare param.name)
    let _ ← attempt (Session.storeName frame param.name (info.paramType isFirst param))
    info.bindParams frame false rest

end FuncInfo

namespace Engine

def ofBody (body : Nat → Infer Ty) : Engine :=
  { body, world := Session.world body }

def runFunction (engine : Engine) (info : FuncInfo) : Infer (List Ty) := do
  let definition := info.definition
  let frame ← Session.addFrame (.ofBody .function definition.name definition.body info.frame)
  info.bindParams frame true info.signature.params
  let before ← modifyGet fun session => (session.returned, { session with returned := [] })
  Walker.execBody { engine, frame, function := info, classes := info.classes } definition.body
  modifyGet fun session => (session.returned.reverse, { session with returned := before })

def inferReturn (engine : Engine) (number : Nat) : Infer Ty := do
  let session ← get
  match session.returns[number]?, session.functions[number]? with
  | some t, _ => return t
  | none, none => return .any
  | none, some info => do
    if session.running.contains number then return .any
    modify fun session => { session with running := number :: session.running }
    let returned ← engine.runFunction info
    let t ← if returned.isEmpty then pure .noneType else engine.world.joinAll returned
    modify fun session => { session with
      running := session.running.filter (· != number)
      returns := session.returns.insert number t }
    return t

def within : Nat → Engine
  | 0 => ofBody fun _ => throw (.crash .endless)
  | depth + 1 => ofBody fun number => (within depth).inferReturn number

end Engine

namespace Session

/-- The engine of a session. -/
def engine (session : Session) : Engine :=
  .within (session.nextNode + 1)

def walker (session : Session) (frame : Nat) : Walker :=
  { engine := session.engine, frame }

abbrev addModuleFrame : Infer Nat := do
  addFrame (.ofBody .module (← get).module [] 0)

def exec (frame : Nat) (body : List Stmt) : Infer Unit := do
  modifyFrame frame (·.extend body)
  ((← get).walker frame).execBody body

abbrev inferExpr (frame : Nat) (expr : Expr) : Infer Ty := do
  ((← get).walker frame).infer false expr

abbrev returnType (number : Nat) : Infer Ty := do
  (← get).engine.inferReturn number

def inferPendingFrom : Nat → Nat → Infer Unit
  | 0, _ => return ()
  | turns + 1, place => do
    match (← get).pending[place]? with
    | none => return ()
    | some number => do
      let _ ← returnType number
      inferPendingFrom turns (place + 1)

abbrev analyze (module : Module) : Infer Nat := do
  let frame ← addModuleFrame
  exec frame module.body
  inferPendingFrom ((← get).nextNode + 1) 0
  return frame

end Session

end Stubwise
