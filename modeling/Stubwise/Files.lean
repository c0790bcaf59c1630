import Stubwise.Text.Path

/-!
Access to files. What a program needs of a file system is a record of operations, so that programs
can be run on a real one and on one in memory.
-/

namespace Stubwise

inductive FileKind where
  | file | directory
  deriving DecidableEq, Repr, Inhabited

inductive PathFault where
  | missing | notDirectory | isDirectory | notEmpty | exists_ | invalid
  | other (text : String)
  deriving DecidableEq, Repr, Inhabited

def PathFault.text : PathFault → String
  | missing => "no such file or directory"
  | notDirectory => "not a directory"
  | isDirectory => "is a directory"
  | notEmpty => "directory not empty"
  | exists_ => "file exists"
  | invalid => "invalid argument"
  | other text => text

structure Files (m : Type → Type) where
  workingDirectory : m String
  kind : String → m (Except PathFault FileKind)
  read : String → m (Except PathFault String)
  below : String → m (List String)
  makeDirectory : String → m (Except PathFault Unit)
  remove : String → m (Except PathFault Unit)
  write : String → String → m (Except PathFault Unit)

namespace Files

variable {m : Type → Type} [Monad m]

/-- How a failure to read a file is told. -/
def readFault (path : String) (fault : PathFault) : String :=
  if fault == .isDirectory then s!"read {path}: {fault.text}" else s!"open {path}: {fault.text}"

def absolute (files : Files m) (path : String) : m String := do
  if Path.isRooted path then return Path.cleanText path
  else return Path.join (← files.workingDirectory) path

def ancestors (path : String) : List String :=
  let path := Path.clean path
  (List.range path.parts.length).map fun count =>
    Path.text { path with parts := path.parts.take (count + 1) }

def makeEach (files : Files m) : List String → m (Except String Unit)
  | [] => return .ok ()
  | directory :: rest => do
    match ← files.kind directory with
    | .ok .directory => files.makeEach rest
    | .ok .file => return .error s!"mkdir {directory}: {PathFault.notDirectory.text}"
    | .error _ => do
      match ← files.makeDirectory directory with
      | .ok _ => files.makeEach rest
      | .error fault => return .error s!"mkdir {directory}: {fault.text}"

def makeDirectories (files : Files m) (path : String) : m (Except String Unit) :=
  files.makeEach (ancestors path)

def readEach (files : Files m) (directory : String) :
    List String → m (List (String × String))
  | [] => return []
  | path :: rest => do
    let others ← files.readEach directory rest
    match ← files.read (Path.join directory path) with
    | .ok text => return (path, text) :: others
    | .error _ => return others

end Files

end Stubwise
