import Stubwise.Analysis
import Stubwise.Proofs.Orderly.Parse
import Stubwise.Proofs.Orderly.Stmt
import Stubwise.Proofs.Parser.Located
import Stubwise.Proofs.Run

namespace Stubwise

set_option synthInstance.maxSize 4000

section Standards

variable [Standard]

instance (info : FuncInfo) (frame : Nat) (isFirst : Bool)
    (params : List Formal) : Orderly (info.bindParams frame isFirst params) := by
  induction params generalizing isFirst <;> unfold FuncInfo.bindParams <;> infer_instance

namespace Engine

section

variable {engine : Engine} [engine.Reliable]

instance (info : FuncInfo) [known : Proper info] : Orderly (engine.runFunction info) := by
  have runnable : RunnableBody info.definition.body :=
    runnableBody_of_stands (fun _ member => known.holds.1.within member)
      fun _ member => known.holds.2.within member
  unfold runFunction
  infer_instance

instance (number : Nat) : Orderly (engine.inferReturn number) := by
  refine orderly_bind fun session _ => ?_
  split
  · infer_instance
  · infer_instance
  · rename_i found
    have info_proper := Proper.of_some found
    infer_instance

end

instance {body : Nat → Infer Ty} [inner : ∀ number, Orderly (body number)] : (ofBody body).Reliable where
  body := inner
  world := Session.world_reliable

instance within_reliable (depth : Nat) : (within depth).Reliable := by
  induction depth <;> unfold within <;> infer_instance

end Engine

namespace Session

instance engine_reliable (session : Session) : session.engine.Reliable := by
  unfold engine
  infer_instance

instance (session : Session) (frame : Nat) : (session.walker frame).engine.Reliable := engine_reliable session

instance exec_orderly (frame : Nat) (body : List Stmt) [RunnableBody body] : Orderly (exec frame body) := by
  unfold exec
  infer_instance

instance (turns place : Nat) : Orderly (inferPendingFrom turns place) := by
  induction turns generalizing place with
  | zero =>
    unfold inferPendingFrom
    infer_instance
  | succ =>
    refine orderly_bind fun session _ => ?_
    split <;> infer_instance

theorem start_proper {session started : Session} [Proper session]
    (made : session.start = .ok started) : Proper started := by
  unfold start at made
  cases outcome : builtinNames session.stubs with
  | error =>
    rw [outcome] at made
    cases made
  | ok =>
    rw [outcome] at made
    cases made
    infer_instance

theorem create_proper {options : SessionOptions} {session : Session}
    (made : create options = .ok session) : Proper session :=
  start_proper made

instance (session : Session) [Proper session] : Reported session.orderedDiagnostics :=
  ⟨fun diagnostic member => (diagnostics_reported session).each diagnostic (List.mem_mergeSort.mp member)⟩

end Session

instance (first second : List Diagnostic) [before : Reported first]
    [after : Reported second] : Reported (first ++ second) :=
  ⟨List.forall_mem_append.mpr ⟨before.each, after.each⟩⟩

instance (diagnostics : List Diagnostic) [known : Reported diagnostics] :
    Reported (Diagnostic.sorted diagnostics) :=
  ⟨fun diagnostic member => known.each diagnostic (List.mem_mergeSort.mp member)⟩

instance : Propriety Analysis :=
  ⟨fun analysis => ∀ diagnostic ∈ analysis.diagnostics, Standard.reports diagnostic⟩

instance (module : Module) (frame : Nat) (diagnostics : List Diagnostic)
    [known : Reported diagnostics] : Proper ({ module, frame, diagnostics } : Analysis) :=
  ⟨known.each⟩

theorem Session.analyzeRead_orderly (file : String) (parsed : Parsed Module)
    [RunnableBody parsed.tree.body] [Reported (parsed.faults.map (·.inFile file))] :
    Orderly (do
      let frame ← analyze parsed.tree
      let reported := parsed.faults.map (·.inFile file) ++ (← get).orderedDiagnostics
      return { module := parsed.tree, frame, diagnostics := Diagnostic.sorted reported } :
        Infer Analysis) :=
  inferInstance

end Standards

namespace Session

instance (module : Module) [known : Proper module] : Proper module.body := ⟨known.holds⟩

end Session

instance (priority := low) (diagnostics : List Diagnostic)
    [known : Proper diagnostics] : Reported diagnostics :=
  ⟨known.holds⟩

namespace Session

instance analyzeText_orderly (source : String) : Orderly (analyzeText source) := by
  unfold analyzeText
  infer_instance

/-- What can be asked of a session from outside. Trees are given as the text that they are read
from. -/
inductive Request where
  | analyze (source : String)
  | addModuleFrame
  | execute (frame : Nat) (file source : String)
  | infer (frame : Nat) (source : String)
  | returnType (number : Nat)
  | callMethod (value : Ty) (name : String) (args : List Ty)
  | makeContainer (ref : ClassRef) (args : List Ty) (keywords : List KeywordArg)
  | element (t : Ty)
  | lookupClass (ref : ClassRef)
  | clearDiagnostics

namespace Request

def perform : Request → Infer Unit
  | analyze source => do
    let _ ← analyzeText source
  | addModuleFrame => do
    let _ ← Session.addModuleFrame
  | execute frame file source => do
    let parsed ← readModule file source
    exec frame parsed.tree.body
  | infer frame source => do
    let parsed ← readExpression source
    match parsed.tree with
    | none => return ()
    | some expr => do
      let _ ← inferExpr frame expr
  | returnType number => do
    let _ ← Session.returnType number
  | callMethod value name args => do
    let _ ← (← get).engine.callMethod value name args
  | makeContainer ref args keywords => do
    let engine := (← get).engine
    let _ ← engine.makeContainer engine.call ref args keywords
  | element t => do
    let _ ← (← get).engine.element t
  | lookupClass ref => do
    let _ ← Session.lookupClass ref
  | clearDiagnostics => modify fun session => { session with diagnostics := [] }

/-- What a request leaves of a session, however it ended. -/
def after (request : Request) (session : Session) : Session :=
  (request.perform.run.run session).2

instance perform_orderly (request : Request) : Orderly request.perform := by
  unfold perform
  cases request with
  | infer frame source =>
    refine orderly_bind fun parsed _ => ?_
    split
    · infer_instance
    · rename_i found
      have expr_proper := Proper.of_some found
      infer_instance
  | _ => infer_instance

end Request

/-- The sessions that come from text: new ones, and what requests leave of them. -/
inductive Reached : Session → Prop where
  | created {options : SessionOptions} {session : Session}
      (made : create options = .ok session) : Reached session
  | after {session : Session} (before : Reached session) (request : Request) :
      Reached (request.after session)

theorem Reached.proper {session : Session} (reached : session.Reached) : proper session := by
  induction reached with
  | created made => exact (create_proper made).holds
  | after _ request ih => exact (request.perform_orderly.yields _ ih).2

/-- Whatever text is analysed in a session, and even if it cannot be read without faults: all parts
of the tree stand in the contexts that their places ask for, and that a context was misused is
reported neither by the analysis nor in the session, nor is it why the analysis ended early. -/
theorem analysis_finds_no_misuse {session : Session} (reached : session.Reached) (source : String) :
    (∀ stmt ∈ (parseModule session.file source session.nextNode).tree.body, stmt.Stands) ∧
      (∀ analysis, ((analyzeText source).run.run session).1 = .ok analysis →
        ∀ diagnostic ∈ analysis.diagnostics, diagnostic.code.text ≠ "I002") ∧
      (∀ fault, ((analyzeText source).run.run session).1 = .error (.fault fault) →
        ∀ diagnostic, .diagnostic diagnostic ∈ fault.causes → diagnostic.code.text ≠ "I002") ∧
      ∀ diagnostic ∈ ((analyzeText source).run.run session).2.diagnostics,
        diagnostic.code.text ≠ "I002" := by
  have tree := (parseModule_proper session.file source session.nextNode).holds.1
  obtain ⟨outcome, after⟩ := (analyzeText_orderly source).yields session reached.proper
  refine ⟨tree, fun analysis given => ?_, fun fault stopped diagnostic cause => ?_, after.1⟩
  · rw [given] at outcome
    exact outcome
  · rw [stopped] at outcome
    exact outcome _ cause

/-- In a session without stubs, after a definition that augments an attribute: a text with targets
of all forms, which ends in the middle of a statement. -/
theorem analysis_finds_no_misuse_after_definition :
    let session := (Request.analyze "def f(*a):\n    a.b += a[0]\n").after
      { frames := { all := #[.builtins []] } }
    session.Reached ∧
      ∀ diagnostic ∈ ((analyzeText "del f, [x.y, x[0]]\nfor a, *b[f()] in f: (").run.run
        session).2.diagnostics, diagnostic.code.text ≠ "I002" := by
  intro session
  have reached : session.Reached := .after (@Reached.created { withEmbedded := false } _ rfl) _
  exact ⟨reached, (analysis_finds_no_misuse reached _).2.2.2⟩

end Session

/-- A place where a token of the text stands. -/
def Position.IsIn (source : String) (position : Position) : Prop :=
  ∃ token ∈ tokenize source, token.position = position

theorem Diagnostic.IsRefusal.congr {diagnostic other : Diagnostic} (refusal : diagnostic.IsRefusal)
    (code : other.code = diagnostic.code) (message : other.message = diagnostic.message) :
    other.IsRefusal := by
  unfold IsRefusal
  rw [code, message]
  exact refusal

/-- The text that is analysed. -/
class Analysed where
  source : String

section

variable [text : Analysed]

instance pointing : Standard where
  near position := position.IsIn text.source
  allows diagnostic := diagnostic.position.isSet = false ∨ diagnostic.position.IsIn text.source ∨
    diagnostic.IsRefusal
  reports diagnostic := diagnostic.position.IsIn text.source ∨ diagnostic.IsRefusal
  usual _ place := place
  stays known code message place := by
    rcases place with same | near
    · rw [same]
      exact known.imp_right (.imp_right fun refusal => refusal.congr code message)
    · exact .inr (.inl near)
  reported known place := by
    rcases place with set | near
    · exact known.resolve_left (by simp [set])
    · exact .inl near

theorem runnableBody_of_clean {file : String} {firstNode : Nat}
    (clean : (parseModule file text.source firstNode).faults = []) :
    RunnableBody (parseModule file text.source firstNode).tree.body :=
  runnableBody_of_stands (parseModule_proper file text.source firstNode).holds.1
    (Parser.parseModule_near clean)

namespace Session

omit text in
theorem run_analyzeText (source : String) (session : Session) :
    (analyzeText source).run.run session = (do
      let parsed := parseModule session.file source session.nextNode
      let frame ← analyze parsed.tree
      let reported := parsed.faults.map (·.inFile session.file) ++ (← get).orderedDiagnostics
      return { module := parsed.tree, frame, diagnostics := Diagnostic.sorted reported } :
        Infer Analysis).run.run
      { session with nextNode := (parseModule session.file source session.nextNode).nextNode } := by
  unfold analyzeText readModule
  rw [Run.run_get_bind, Run.run_modifyGet_bind]

theorem analyzeText_points {source : String} (same : text.source = source) {session : Session}
    [before : Proper session] (clean : (parseModule session.file source session.nextNode).faults = []) :
    Meets proper ((analyzeText source).run.run session).1 ∧
      proper ((analyzeText source).run.run session).2 := by
  subst same
  have runnable := runnableBody_of_clean clean
  have nothing : Reported ((parseModule session.file text.source session.nextNode).faults.map
      (·.inFile session.file)) := by
    rw [clean]
    exact nil_reported
  rw [run_analyzeText]
  generalize parseModule session.file text.source session.nextNode = parsed at *
  have started : Proper { session with nextNode := parsed.nextNode } :=
    ⟨proper_of_unseen inferInstance before.holds⟩
  exact (analyzeRead_orderly session.file parsed).yields _ started.holds

end Session

end

namespace Session

/-- Every diagnostic of a text that was read without faults, analysed in a new session with whatever
stubs, stands at a token of the text; only the refusal of a hint may stand elsewhere. -/
theorem diagnostics_point_into_text {options : SessionOptions} {session : Session} {source : String}
    (made : create options = .ok session)
    (clean : (parseModule session.file source session.nextNode).faults = []) :
    (∀ analysis, ((analyzeText source).run.run session).1 = .ok analysis →
      ∀ diagnostic ∈ analysis.diagnostics,
        diagnostic.position.IsIn source ∨ diagnostic.IsRefusal) ∧
      ∀ diagnostic ∈ ((analyzeText source).run.run session).2.diagnostics,
        diagnostic.position.IsIn source ∨ diagnostic.IsRefusal := by
  have before := @create_proper (@pointing ⟨source⟩) _ _ made
  have points := @analyzeText_points ⟨source⟩ source rfl _ before clean
  generalize (analyzeText source).run.run session = ended at points
  refine ⟨fun analysis given => ?_, points.2.1⟩
  have outcome := points.1
  rw [given] at outcome
  exact outcome

/-- In a session without stubs: names without values, and a hint that is refused inside a string. -/
theorem diagnostics_point_into_text_of_loop :
    let session : Session := { frames := { all := #[.builtins []] } }
    let source := "for a in b:\n    del c\nd: \"None |  1\" = e\n"
    let after := ((analyzeText source).run.run session).2
    create { withEmbedded := false } = .ok session ∧
      (parseModule session.file source session.nextNode).faults = [] ∧
      after.diagnostics.map (·.position) = [⟨3, 18⟩, ⟨1, 9⟩, ⟨2, 9⟩, ⟨1, 10⟩] ∧
      ∀ diagnostic ∈ after.diagnostics, diagnostic.position.IsIn source ∨ diagnostic.IsRefusal := by
  intro session source after
  have made : create { withEmbedded := false } = .ok session := rfl
  have clean : (parseModule session.file source session.nextNode).faults = [] := by decide +kernel
  exact ⟨made, clean, by decide +kernel, (diagnostics_point_into_text made clean).2⟩

/-- A hint inside a string is refused at a place of its own text, where the text around it has no
token. -/
theorem refused_string_points_elsewhere :
    let session : Session := { frames := { all := #[.builtins []] } }
    let source := "x: \"None |  1\" = 1\n"
    create { withEmbedded := false } = .ok session ∧
      (parseModule session.file source session.nextNode).faults = [] ∧
      ∃ analysis, ((analyzeText source).run.run session).1 = .ok analysis ∧
        ∃ diagnostic ∈ analysis.diagnostics, ¬diagnostic.position.IsIn source := by
  intro session source
  refine ⟨rfl, by decide +kernel, ?_⟩
  have found : ((analyzeText source).run.run session).1.toOption.any
      (·.diagnostics.any (·.position == ⟨1, 9⟩)) = true := by decide +kernel
  have away : ∀ token ∈ tokenize source, token.position ≠ ⟨1, 9⟩ := by decide +kernel
  generalize ((analyzeText source).run.run session).1 = outcome at found ⊢
  cases outcome with
  | error => cases found
  | ok analysis =>
    obtain ⟨diagnostic, member, place⟩ := List.any_eq_true.mp found
    refine ⟨analysis, rfl, diagnostic, member, fun ⟨token, listed, same⟩ => ?_⟩
    exact away token listed (same.trans (eq_of_beq place))

end Session

end Stubwise
