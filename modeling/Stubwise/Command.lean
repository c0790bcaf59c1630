import Stubwise.Command.Flags
import Stubwise.Dialogue
import Stubwise.Project
import Stubwise.Stub.Bundle

/-!
The commands of the program. A command reads its flags, then the configuration of the project, and
ends with an exit code and two texts.
-/

namespace Stubwise.Command

def version : String :=
  "dev"

def usage : String :=
  "Usage: stubinfer <command> [flags] [args]\n\n" ++
  "Commands:\n" ++
  "  check [-v] [--dump] [--module name] [--config file] file.py\n" ++
  "        infer the module and print its bindings and diagnostics\n" ++
  "  expr [-v] [--config file] 'expression'\n" ++
  "        infer a single expression in an empty module\n" ++
  "  repl [--config file]\n" ++
  "        interactive session over one module frame\n" ++
  "  bundle [-o stubs.db] [--check] dir...\n" ++
  "        pack .pyi stub trees into a SQLite bundle\n" ++
  "  version\n" ++
  "        print the version\n"

structure Outcome where
  code : Nat := 0
  output : String := ""
  errors : String := ""
  deriving DecidableEq, Repr, Inhabited

inductive Ending where
  | finished (outcome : Outcome)
  | dialogue (session : Session)
  | crashed

abbrev Work (m : Type → Type) := ExceptT Ending m

structure Context (m : Type → Type) where
  files : Files m
  coloured : Bool

variable {m : Type → Type} [Monad m]

def stop {α : Type} (code : Nat) (errors : String) : Work m α :=
  throw (.finished { code, errors })

def verboseFlag : Flag :=
  { name := "v", kind := .switch, usage := "log stub loads and overload decisions to stderr" }

def dumpFlag : Flag :=
  { name := "dump", kind := .switch, usage := "dump the inferred types of the module bindings" }

def moduleFlag : Flag :=
  { name := "module", kind := .text, usage := "module name used to resolve relative imports" }

def configFlag : Flag :=
  { name := "config", kind := .text
    usage := "path to stubinfer.yaml (default: searched upwards)" }

def outputFlag : Flag :=
  { name := "o", kind := .text, usage := "bundle file to write", initial := "stubs.db" }

def checkFlag : Flag :=
  { name := "check", kind := .switch
    usage := "parse and resolve every stub of the written bundle" }

def readFlags (command : String) (flags : List Flag) (arguments : List String) :
    Work m Arguments :=
  match Flag.parse flags [] arguments with
  | .ok arguments => return arguments
  | .error fault => stop 2 (Flag.faultText command flags fault)

namespace Context

def refuseProject {α : Type} (context : Context m) (message : String) : Work m α :=
  stop 1 (Report.diagnostics context.coloured [{ code := .config, message }])

def findProject (context : Context m) (directory : String) : m (Option String) := do
  let directory ← context.files.absolute directory
  let places := (Files.ancestors directory).reverse ++ ["/"]
  let candidates := places.flatMap fun place => Project.fileNames.map (Path.join place)
  candidates.findM? fun candidate => return (← context.files.kind candidate).isOk

def readProject (context : Context m) (path : String) : Work m Project := do
  match ← context.files.read path with
  | .error fault => context.refuseProject s!"reading config {path}: {Files.readFault path fault}"
  | .ok text =>
    match Project.parse path text with
    | .ok project => return project
    | .error .malformed =>
      context.refuseProject s!"parsing {path}: yaml: not a valid configuration"
    | .error (.invalid message) => context.refuseProject message
    | .error .crashed => throw .crashed

/-- The configuration with the given path. -/
def loadProject (context : Context m) (config directory : String) : Work m Project := do
  if !config.isEmpty then context.readProject config
  else match ← context.findProject directory with
    | some path => context.readProject path
    | none => return Project.default

def stubTree (files : Files m) (directory : String) : m StubTree := do
  match ← files.kind directory with
  | .ok .file | .error .notDirectory => return { storage := .disk, isFile := true }
  | .error _ => return { storage := .disk }
  | .ok .directory => do
    let (stubs, others) := (← files.below directory).partition (Text.hasSuffix · stubExtension)
    let sources ← files.readEach directory stubs
    return .ofSources .disk (sources ++ others.map fun path => (path, ""))

def bundleTree (files : Files m) (file : String) : Work m StubTree := do
  match ← ExceptT.lift (Bundle.load files file) with
  | .ok sources => return .ofSources .bundle sources
  | .error message => stop 1 s!"Error: {message}\n"

def openSession (context : Context m) (project : Project) (module file : String) :
    Work m Session := do
  let trees ← ExceptT.lift (project.resolvedStubPaths.mapM (stubTree context.files))
  let bundles ← project.resolvedBundles.mapM (bundleTree context.files)
  let options : SessionOptions :=
    { trees := trees ++ bundles
      withEmbedded := project.builtins != Project.noBuiltins
      strict := project.strictOverloads
      maxDepth := project.maxDepth
      module, file }
  match Session.create options with
  | .ok session => return session
  | .error _ => throw .crashed

/-- The name of the module in a file: by its place below the directory of the project, or by the
file alone. -/
def moduleName (context : Context m) (project : Project) (file : String) : m String := do
  if project.dir.isEmpty then return ModuleName.ofFile file
  let root ← context.files.absolute project.dir
  let path ← context.files.absolute file
  match ModuleName.dotted root path with
  | .ok name => return name
  | .error _ => return ModuleName.ofFile file

def reportOf (context : Context m) (fault : Fault) : String :=
  Report.diagnostics context.coloured [(fault.positioned {}).1]

def checked (context : Context m) (session : Session) (analysis : Analysis) : Outcome :=
  { code := if analysis.diagnostics.isEmpty then 0 else 1
    output := Report.bindings context.coloured (session.bindings analysis.frame)
    errors := Report.diagnostics context.coloured analysis.diagnostics }

def check (context : Context m) (arguments : List String) : Work m Outcome := do
  let flags := [verboseFlag, dumpFlag, moduleFlag, configFlag]
  let arguments ← readFlags "check" flags arguments
  match arguments.rest with
  | [file] => do
    match ← context.files.read file with
    | .error fault => stop 1 s!"Error reading file: {Files.readFault file fault}\n"
    | .ok source => do
      let project ← context.loadProject (arguments.text configFlag) (Path.dirName file)
      let given := arguments.text moduleFlag
      let module ← if given.isEmpty then context.moduleName project file else pure given
      let session ← context.openSession project module file
      match (Session.analyzeText source).run.run session with
      | (.ok analysis, session) => return context.checked session analysis
      | (.error _, _) => throw .crashed
  | _ => stop 2 "check: expected exactly one file\n"

def inferAlone (source : String) : Infer (Except (List Diagnostic) Ty) := do
  let parsed ← Session.readExpression source
  match parsed.faults, parsed.tree with
  | [], some expr => do
    let frame ← Session.addModuleFrame
    match ← attempt (Session.inferExpr frame expr) with
    | .ok t => return .ok t
    | .error fault => return .error [(fault.positioned {}).1]
  | faults, _ => return .error faults

def expr (context : Context m) (arguments : List String) : Work m Outcome := do
  let arguments ← readFlags "expr" [verboseFlag, configFlag] arguments
  if arguments.rest.isEmpty then stop 2 "expr: expected an expression\n"
  let project ← context.loadProject (arguments.text configFlag) "."
  let session ← context.openSession project "" ""
  match ((inferAlone (" ".intercalate arguments.rest)).run.run session).1 with
  | .ok (.ok t) => return { output := t.text ++ "\n" }
  | .ok (.error diagnostics) => stop 1 (Report.diagnostics context.coloured diagnostics)
  | .error _ => throw .crashed

def repl (context : Context m) (arguments : List String) : Work m Outcome := do
  let arguments ← readFlags "repl" [configFlag] arguments
  let project ← context.loadProject (arguments.text configFlag) "."
  throw (.dialogue (← context.openSession project "" Dialogue.file))

def stubReport (context : Context m) (tree : StubTree) (path source : String) :
    Work m String := do
  let parsed := parseModule path source
  if !parsed.faults.isEmpty then return Report.diagnostics context.coloured parsed.faults
  match ModuleName.dotted "." path with
  | .error _ => return ""
  | .ok name =>
    match tree.resolve name with
    | .ok _ => return ""
    | .error (.fault fault) => return context.reportOf fault
    | .error (.crash _) => throw .crashed

def checkBundle (context : Context m) (file : String) : Work m Outcome := do
  match ← ExceptT.lift (Bundle.load context.files file) with
  | .error message => return { code := 1, errors := s!"Error: {message}\n" }
  | .ok sources => do
    let tree := StubTree.ofSources .bundle sources
    let reports ← sources.mapM fun (path, source) => context.stubReport tree path source
    let failed := reports.countP (!·.isEmpty)
    if failed == 0 then return {}
    return {
      code := 1
      errors := String.join reports ++ s!"{failed} of {sources.length} stubs failed\n" }

def bundle (context : Context m) (arguments : List String) : Work m Outcome := do
  let arguments ← readFlags "bundle" [outputFlag, checkFlag] arguments
  if arguments.rest.isEmpty then stop 2 "bundle: expected at least one stub directory\n"
  let file := arguments.text outputFlag
  match ← ExceptT.lift (Bundle.pack context.files file arguments.rest) with
  | .error message => stop 1 s!"Error: {message}\n"
  | .ok count => do
    let output := s!"wrote {count} stubs to {file}\n"
    if !arguments.isOn checkFlag.name then return { output }
    return { ← context.checkBundle file with output }

def dispatch (context : Context m) : List String → Work m Outcome
  | [] => stop 2 usage
  | command :: arguments =>
    match command with
    | "check" => context.check arguments
    | "expr" => context.expr arguments
    | "repl" => context.repl arguments
    | "bundle" => context.bundle arguments
    | "version" | "-version" | "--version" => return { output := s!"stubinfer {version}\n" }
    | "help" | "-help" | "--help" | "-h" => return { output := usage }
    | _ => stop 2 (s!"unknown command {Text.quote command}\n\n" ++ usage)

def run (context : Context m) (arguments : List String) : m Ending := do
  match ← (context.dispatch arguments).run with
  | .ok outcome => return .finished outcome
  | .error ending => return ending

end Context

end Stubwise.Command
