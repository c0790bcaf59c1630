import Stubwise.Infer.Run

/-!
Analysis of source texts in a session: whole modules with all their diagnostics, and single texts
one after another.
-/

namespace Stubwise

structure SessionOptions where
  trees : List StubTree := []
  withEmbedded : Bool := true
  strict : Bool := false
  /-- How deep expressions may be nested; the default for numbers that are not positive. -/
  maxDepth : Int := 0
  module : String := ""
  file : String := ""

namespace Session

def create (options : SessionOptions) : Except Stop Session :=
  let plain : Session := {}
  let trees := options.trees ++ if options.withEmbedded then [embeddedStubs] else []
  Session.start {
    stubs := { trees }
    module := if options.module.isEmpty then plain.module else options.module
    file := options.file
    strict := options.strict
    maxDepth := if options.maxDepth ≤ 0 then plain.maxDepth else options.maxDepth.toNat }

abbrev readModule (file source : String) : Infer (Parsed Module) :=
  modifyGet fun session =>
    let parsed := parseModule file source session.nextNode
    (parsed, { session with nextNode := parsed.nextNode })

abbrev readExpression (source : String) : Infer (Parsed (Option Expr)) :=
  modifyGet fun session =>
    let parsed := parseExpression source session.nextNode
    (parsed, { session with nextNode := parsed.nextNode })

def bindings (session : Session) (frame : Nat) : List (String × Ty) :=
  (session.frames.frame frame).sortedBindings

end Session

structure Analysis where
  module : Module
  frame : Nat
  diagnostics : List Diagnostic

/-- Analyses the text of a module. -/
def Session.analyzeText (source : String) : Infer Analysis := do
  let file := (← get).file
  let parsed ← readModule file source
  let frame ← analyze parsed.tree
  let reported := parsed.faults.map (·.inFile file) ++ (← get).orderedDiagnostics
  return { module := parsed.tree, frame, diagnostics := Diagnostic.sorted reported }

end Stubwise
