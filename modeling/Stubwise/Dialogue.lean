import Stubwise.Analysis

namespace Stubwise

namespace Report

inductive Colour where
  | red | cyan
  deriving DecidableEq, Repr

def Colour.sequence : Colour → String
  | red => "\x1b[31m"
  | cyan => "\x1b[36m"

def paint (coloured : Bool) (colour : Colour) (text : String) : String :=
  if coloured then colour.sequence ++ text ++ "\x1b[0m" else text

def bindings (coloured : Bool) (bindings : List (String × Ty)) : String :=
  String.join (bindings.map fun (name, t) => s!"{paint coloured .cyan name}: {t.text}\n")

def diagnostics (coloured : Bool) (diagnostics : List Diagnostic) : String :=
  String.join (diagnostics.map fun diagnostic => paint coloured .red diagnostic.text ++ "\n")

end Report

namespace Dialogue

def file : String :=
  "<repl>"

structure Reply where
  output : String := ""
  reports : String := ""

def answerType? (session : Session) : List Stmt → Option Ty
  | [.expr _ value] => session.types[value.mark.node]?
  | _ => none

def runEntry (coloured : Bool) (frame : Nat) (body : List Stmt) : Infer Reply := do
  modify fun session => { session with diagnostics := [] }
  Session.exec frame body
  let session ← get
  return {
    output := ((answerType? session body).map (·.text ++ "\n")).getD ""
    reports := Report.diagnostics coloured session.orderedDiagnostics }

/-- Runs one entry. The entry `:names` lists the bindings. An entry that cannot be read is not
run. -/
def eval (coloured : Bool) (frame : Nat) (source : String) : Infer Reply := do
  if source == ":names" then
    return { output := Report.bindings coloured ((← get).bindings frame) }
  let parsed ← Session.readModule file (source ++ "\n")
  if parsed.faults.isEmpty then runEntry coloured frame parsed.tree.body
  else return { reports := Report.diagnostics coloured parsed.faults }

end Dialogue

end Stubwise
