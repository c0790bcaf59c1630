import Stubwise.Infer.Operator

namespace Stubwise

structure Walker where
  engine : Engine
  frame : Nat
  function : Option FuncInfo := none
  cls : Option Class := none
  classes : List Class := []
  depth : Nat := 0

def placingAt {α : Type} (position : Position) (run : Infer α) : Infer α := do
  match ← attempt run with
  | .ok a => return a
  | .error fault => throw (.fault (fault.placed position))

/-- Shows the expression that a fault arose in. -/
def Session.blame (expr : Expr) (fault : Fault) : Infer Fault := do
  let placed := fault.placed expr.position
  match placed.remembered with
  | none => pure ()
  | some qualName =>
    modify fun session =>
      let known := (session.values.getD qualName (.error placed)).mapError
        (·.withNode expr.text)
      { session with values := session.values.insert qualName known }
  return placed.withNode expr.text

def misuse (position : Position) (message : String) : Stop :=
  .ofDiagnostic { code := .contextMisuse, message, position }

abbrev notInferred (position : Position) (message : String) : Stop :=
  .ofDiagnostic { code := .unsupported, message, position }

namespace Walker

def within (walker : Walker) (frame : Nat) : Walker :=
  { walker with frame, cls := none }

def attributes (engine : Engine) : Ty → List String → Infer Ty
  | t, [] => return t
  | t, attr :: rest => do attributes engine (← engine.attributeOf t attr) rest

def loadDotted (walker : Walker) (dotted : String) : Infer Ty := do
  match Text.split '.' dotted with
  | [] => Session.loadName walker.frame dotted
  | head :: rest => do attributes walker.engine (← Session.loadName walker.frame head) rest

def enclosingClass? (walker : Walker) (dotted : String) : Option Class :=
  walker.classes.reverse.find? fun cls =>
    cls.ref.name == dotted || lastSegment cls.ref.name == dotted

abbrev typeNamed (walker : Walker) (dotted : String) : Infer Ty := do
  match walker.enclosingClass? dotted with
  | some cls => return .cls cls.ref
  | none => do
    match ← walker.loadDotted dotted with
    | .type t => return t
    | .any => return .any
    | value => throw (.fault (.coded .unsupported s!"{dotted} ({value.text}) is not a type"))

abbrev hintType (walker : Walker) (hint : Expr) : Infer Ty :=
  Hint.type walker.typeNamed hint

def receiverClass? (walker : Walker) : Expr → Option Class
  | .name _ id _ => do
    let info ← walker.function
    let cls ← info.cls
    if info.self == id then some cls else none
  | _ => none

/-- Infers one expression by `run`, with the bound on nesting. -/
def shown (walker : Walker) (asLoad : Bool) (expr : Expr) (run : Walker → Infer Ty) :
    Infer Ty := do
  let limit := (← get).maxDepth
  if limit ≤ walker.depth then
    throw (notInferred expr.position s!"expression nested deeper than {limit}")
  match ← attempt (run { walker with depth := walker.depth + 1 }) with
  | .error fault => throw (.fault (← Session.blame expr fault))
  | .ok t => do
    if !(asLoad && expr.isSingleTarget) then
      modify fun session => { session with types := session.types.insert expr.mark.node t }
    return t

end Walker

end Stubwise
