import Stubwise.Data.Table
import Stubwise.Files

namespace Stubwise

structure Disk where
  workingDirectory : String := "/"
  files : Table String := []
  directories : List String := ["/"]
  deriving Inhabited

namespace Disk

def kind? (disk : Disk) (place : String) : Option FileKind :=
  if disk.files.contains place then some .file
  else if disk.directories.contains place then some .directory
  else none

def enter (disk : Disk) (place part : String) : Except PathFault String :=
  match disk.kind? place with
  | none => .error .missing
  | some .file => .error .notDirectory
  | some .directory =>
    if part.isEmpty || part == "." then .ok place
    else if part == ".." then .ok (Path.dirName place)
    else .ok (Path.join place part)

def locate (disk : Disk) (path : String) : Except PathFault String :=
  if path.isEmpty then .error .missing
  else if path.toList.contains '\x00' then .error .invalid
  else
    let start := if Path.isRooted path then "/" else disk.workingDirectory
    (Text.split '/' path).foldlM disk.enter start

def kind (disk : Disk) (path : String) : Except PathFault FileKind := do
  match disk.kind? (← disk.locate path) with
  | some kind => return kind
  | none => throw .missing

def read (disk : Disk) (path : String) : Except PathFault String := do
  let place ← disk.locate path
  match disk.files.get? place, disk.kind? place with
  | some text, _ => return text
  | none, some _ => throw .isDirectory
  | none, none => throw .missing

def below? (directory place : String) : Option String :=
  let start := if directory == "/" then "/" else directory ++ "/"
  if Text.hasPrefix place start then some (String.ofList (place.toList.drop start.length))
  else none

def below (disk : Disk) (path : String) : List String :=
  match disk.locate path with
  | .error _ => []
  | .ok directory => sortNames (disk.files.keys.filterMap (below? directory))

def makeDirectory (disk : Disk) (path : String) : Except PathFault Disk := do
  let place ← disk.locate path
  if (disk.kind? place).isSome then throw .exists_
  return { disk with directories := place :: disk.directories }

def remove (disk : Disk) (path : String) : Except PathFault Disk := do
  let place ← disk.locate path
  match disk.kind? place with
  | none => throw .missing
  | some .file => return { disk with files := disk.files.erase place }
  | some .directory =>
    if (Text.split '/' path).getLast? == some "." then throw .invalid
    let inside := (disk.files.keys ++ disk.directories).any fun other =>
      other != place && (below? place other).isSome
    if inside then throw .notEmpty
    return { disk with directories := disk.directories.filter (· != place) }

def write (disk : Disk) (path text : String) : Except PathFault Disk := do
  let place ← disk.locate path
  if disk.kind? place == some .directory then throw .isDirectory
  return { disk with files := disk.files.set place text }

def ofFiles (workingDirectory : String) (files : List (String × String)) : Disk :=
  let files := files.map fun (path, text) => (Path.join workingDirectory path, text)
  let directories := workingDirectory :: files.map fun file => Path.dirName file.1
  let around := directories.flatMap Files.ancestors
  { workingDirectory
    files := files.foldl (fun table (path, text) => table.set path text) []
    directories := NameSet.insertAll ["/"] around }

def change (act : Disk → Except PathFault Disk) : StateM Disk (Except PathFault Unit) := do
  match act (← get) with
  | .ok disk => do
    set disk
    return .ok ()
  | .error fault => return .error fault

def access : Files (StateM Disk) where
  workingDirectory := return (← get).workingDirectory
  kind path := return (← get).kind path
  read path := return (← get).read path
  below path := return (← get).below path
  makeDirectory path := change (·.makeDirectory path)
  remove path := change (·.remove path)
  write path text := change (·.write path text)

end Disk

end Stubwise
