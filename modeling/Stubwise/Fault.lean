import Stubwise.Diagnostic
import Stubwise.Text.Quoted

namespace Stubwise

inductive Cause where
  | diagnostic (diagnostic : Diagnostic)
  /-- A type, given by its text, does not certainly have an attribute. -/
  | missingAttribute (owner name : String)
  | dictArity (index arity : Nat)
  | unboundParams (names : List String)
  | note (text : String)
  deriving DecidableEq, Repr, Inhabited

def Cause.text : Cause → String
  | diagnostic d => d.text
  | missingAttribute owner name => s!"{owner} has no attribute {Text.quote name}"
  | dictArity index arity =>
    s!"dictionary update sequence element #{index} has length {arity}; 2 is required"
  | unboundParams names => "unbound type parameters: " ++ ", ".intercalate names
  | note text => text

def Cause.diagnostic? : Cause → Option Diagnostic
  | diagnostic d => some d
  | _ => none

structure Fault where
  outermost : Cause
  inner : List Cause := []
  remembered : Option String := none
  deriving DecidableEq, Repr, Inhabited

namespace Fault

def causes (fault : Fault) : List Cause :=
  fault.outermost :: fault.inner

def text (fault : Fault) : String :=
  fault.outermost.text

def ofDiagnostic (diagnostic : Diagnostic) : Fault :=
  { outermost := .diagnostic diagnostic }

def plain (text : String) : Fault :=
  { outermost := .note text }

abbrev coded (code : Code) (message : String) : Fault :=
  ofDiagnostic { code, message }

def wrapped (fault : Fault) (code : Code) (message : String) (position : Position := {}) : Fault :=
  { outermost := .diagnostic { code, message, position }, inner := fault.causes }

def noted (fault : Fault) (text : String) : Fault :=
  { outermost := .note text, inner := fault.causes }

def ofFinding (code : Code) (finding : Cause) : Fault :=
  { outermost := .diagnostic { code, message := finding.text }, inner := [finding] }

def diagnostic? (fault : Fault) : Option Diagnostic :=
  fault.causes.findSome? Cause.diagnostic?

def code? (fault : Fault) : Option Code :=
  fault.diagnostic?.map (·.code)

def hasCode (fault : Fault) (code : Code) : Bool :=
  fault.causes.any fun cause => cause.diagnostic?.any (·.code == code)

def lacksAttribute (fault : Fault) : Bool :=
  fault.causes.any fun
    | .missingAttribute _ _ => true
    | _ => false

def fromDiagnostic? : List Cause → Option (Diagnostic × List Cause)
  | [] => none
  | .diagnostic d :: rest => some (d, rest)
  | _ :: rest => fromDiagnostic? rest

/-- The fault as a diagnostic that has a position: the outermost one of the chain, placed at
`position` if it has no place of its own. -/
def positioned (fault : Fault) (position : Position) : Diagnostic × List Cause :=
  match fromDiagnostic? fault.causes with
  | some (d, inner) => (d.placedAt position, inner)
  | none => ({ code := .unsupported, message := fault.text, position }, fault.causes)

/-- The fault as one that has a position. -/
def placed (fault : Fault) (position : Position) : Fault :=
  let (diagnostic, inner) := fault.positioned position
  let hadPlace := fault.diagnostic?.any (·.position.isSet)
  { outermost := .diagnostic diagnostic, inner,
    remembered := if hadPlace then fault.remembered else none }

def nodeInFirst (node : String) : List Cause → List Cause
  | [] => []
  | .diagnostic d :: rest => .diagnostic (d.withNode node) :: rest
  | cause :: rest => cause :: nodeInFirst node rest

def withNode (fault : Fault) (node : String) : Fault :=
  match nodeInFirst node fault.causes with
  | [] => fault
  | outermost :: inner => { fault with outermost, inner }

end Fault

inductive Crash where
  | missingPart
  | endless
  deriving DecidableEq, Repr, Inhabited

inductive Stop where
  | fault (fault : Fault)
  | crash (crash : Crash)
  deriving DecidableEq, Repr, Inhabited

def Stop.ofDiagnostic (diagnostic : Diagnostic) : Stop :=
  .fault (.ofDiagnostic diagnostic)

def attempt {m : Type → Type} [Monad m] [MonadExceptOf Stop m] {α : Type} (run : m α) :
    m (Except Fault α) :=
  tryCatchThe Stop (do return .ok (← run)) fun
    | .fault cause => return .error cause
    | .crash crash => throwThe Stop (.crash crash)

end Stubwise
