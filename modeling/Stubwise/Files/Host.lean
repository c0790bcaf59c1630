import Stubwise.Data.Table
import Stubwise.Files

namespace Stubwise.Host

def faultOf : IO.Error → PathFault
  | .noFileOrDirectory .. => .missing
  | .inappropriateType _ _ details =>
    if Text.hasPrefix details "Is a" then .isDirectory else .notDirectory
  | .unsatisfiedConstraints .. => .notEmpty
  | .alreadyExists .. => .exists_
  | .invalidArgument .. => .invalid
  | error => .other (toString error)

def place {α : Type} (path : String) (act : String → IO α) : IO (Except PathFault α) := do
  if path.isEmpty then return .error .missing
  try return .ok (← act path)
  catch error => return .error (faultOf error)

def kindOf (path : String) : IO FileKind := do
  let data ← ((← IO.currentDir) / path).metadata
  return if data.type == .dir then .directory else .file

def removeAny (path : String) : IO Unit := do
  if (← kindOf path) == .directory then IO.FS.removeDir path else IO.FS.removeFile path

def belowDirectory (path : String) : IO (List String) := do
  let start := (← IO.currentDir) / path
  let entries ← start.walkDir
  let found ← entries.filterM fun entry => return !(← entry.isDir)
  let names := found.toList.map fun entry =>
    String.ofList (entry.toString.toList.drop (start.toString.length + 1))
  return sortNames names

def files : Files IO where
  workingDirectory := return (← IO.currentDir).toString
  kind path := place path kindOf
  read path := place path (IO.FS.readFile ·)
  below path := return ((← place path belowDirectory).toOption).getD []
  makeDirectory path := place path (IO.FS.createDir ·)
  remove path := place path removeAny
  write path text := place path (IO.FS.writeFile · text)

end Stubwise.Host
