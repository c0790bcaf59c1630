import Stubwise.Files
import Stubwise.Stub.Tree

/-!
Bundles: stub trees packed into one file. A bundle is a text that begins with a line of its own; then
each stub follows with the lengths of its path and source, the path, and the source.
-/

namespace Stubwise.Bundle

def heading : String :=
  "stub bundle 1\n"

def encodeEntry (path source : String) : String :=
  s!"{path.length} {source.length}\n" ++ path ++ source

def encode (sources : List (String × String)) : String :=
  heading ++ String.join (sources.map fun (path, source) => encodeEntry path source)

def takeNumber (ending : Char) (value : Nat) : List Char → Option (Nat × List Char)
  | [] => none
  | c :: rest =>
    if c == ending then some (value, rest)
    else if c.isDigit then takeNumber ending (value * 10 + (c.toNat - '0'.toNat)) rest
    else none

def decodeEntries : Nat → List Char → Option (List (String × String))
  | _, [] => some []
  | 0, _ :: _ => none
  | turns + 1, chars => do
    let (pathLength, rest) ← takeNumber ' ' 0 chars
    let (sourceLength, rest) ← takeNumber '\n' 0 rest
    let source := rest.drop pathLength
    let others ← decodeEntries turns (source.drop sourceLength)
    some ((String.ofList (rest.take pathLength), String.ofList (source.take sourceLength))
      :: others)

def decode? (text : String) : Option (List (String × String)) :=
  if Text.hasPrefix text heading then
    decodeEntries text.length (text.toList.drop heading.length)
  else none

def isTransient (file : String) : Bool :=
  file.isEmpty || file == ":memory:"

variable {m : Type → Type} [Monad m]

def directoryFault (files : Files m) (directory : String) : m (Option String) := do
  if directory.isEmpty then return some "os: DirFS with empty root"
  match ← files.kind directory with
  | .ok .directory => return none
  | .ok .file => return some PathFault.notDirectory.text
  | .error fault => return some fault.text

/-- The stubs below directories. -/
def collect (files : Files m) :
    List (String × String) → List String → m (Except String (List (String × String)))
  | known, [] => return .ok known
  | known, directory :: rest => do
    match ← directoryFault files directory with
    | some reason =>
      return .error s!"collecting stubs from {directory}: stat .: {reason}"
    | none => do
      let paths := (← files.below directory).filter fun path =>
        Text.hasSuffix path stubExtension && !known.any (·.1 == path)
      let found ← files.readEach directory paths
      collect files (known ++ found) rest

def pack (files : Files m) (file : String) (directories : List String) :
    m (Except String Nat) := do
  match ← collect files [] directories with
  | .error message => return .error message
  | .ok sources => do
    match ← files.makeDirectories (Path.dirName file) with
    | .error message => return .error message
    | .ok _ => do
      match ← files.remove file with
      | .error .missing => store sources
      | .error fault => return .error s!"remove {file}: {fault.text}"
      | .ok _ => store sources
where
  store (sources : List (String × String)) : m (Except String Nat) := do
    let ordered := sources.mergeSort fun a b => decide (a.1 ≤ b.1)
    if isTransient file then return .ok sources.length
    match ← files.write file (encode ordered) with
    | .ok _ => return .ok sources.length
    | .error _ => return .error "creating bundle schema: unable to open database file (14)"

def load (files : Files m) (file : String) : m (Except String (List (String × String))) := do
  match ← files.kind file with
  | .error fault => return .error s!"opening bundle: stat {file}: {fault.text}"
  | .ok _ => do
    match (← files.read file).toOption.bind decode? with
    | some sources => return .ok sources
    | none => return .error s!"bundle {file}: reading format: file is not a database"

end Stubwise.Bundle
