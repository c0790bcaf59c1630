import Stubwise.Fault
import Stubwise.ModuleName
import Stubwise.Parser
import Stubwise.Stub.Index

/-!
Trees of stub files. The module `a.b` is the file `a/b.pyi` or the package `a/b/__init__.pyi`; a
directory alone is an empty package.
-/

namespace Stubwise

structure StubFile where
  path : String
  tree : Thunk Module
  asModule : Thunk StubModule
  asPackage : Thunk StubModule

namespace StubFile

def nameOf (path ending : String) : String :=
  ".".intercalate (Text.split '/' (Text.dropEnd ending.length path))

def ofSource (path source : String) : StubFile :=
  let tree : Thunk Module := Thunk.mk fun _ => (parseModule path source).tree
  { path, tree
    asModule := Thunk.mk fun _ => .index (nameOf path stubExtension) false tree.get
    asPackage := Thunk.mk fun _ =>
      .index (nameOf path ("/" ++ packageFile ++ stubExtension)) true tree.get }

def moduleNamed (file : StubFile) (name : String) (isPackage : Bool) : StubModule :=
  let usual := if isPackage then file.asPackage.get else file.asModule.get
  if usual.decl.name == name then usual else .index name isPackage file.tree.get

end StubFile

/-- Where the files of a tree are kept. -/
inductive Storage where
  | memory | embedded | disk | bundle
  deriving DecidableEq, Repr, Inhabited

structure StubTree where
  storage : Storage := .memory
  files : List StubFile := []
  isFile : Bool := false

inductive Reading where
  | file (file : StubFile)
  | missing
  | refused (reason : String)

namespace StubTree

def ofSources (storage : Storage) (sources : List (String × String)) : StubTree :=
  { storage, files := sources.map fun (path, source) => .ofSource path source }

/-- Whether a path can name a file: it is not rooted and no part is empty, `.` or `..`. -/
def isPath (path : String) : Bool :=
  path == "." || (Text.split '/' path).all fun part => part != "" && part != "." && part != ".."

/-- Whether a path lies below a directory. -/
def liesBelow (storage : Storage) (directory path : String) : Bool :=
  let start := directory ++ "/"
  match storage with
  | .bundle => String.ofList (path.toList.take start.utf8ByteSize) == start
  | _ => Text.hasPrefix path start

def file? (tree : StubTree) (path : String) : Option StubFile :=
  tree.files.find? (·.path == path)

def isDirectory (tree : StubTree) (path : String) : Bool :=
  isPath path && (tree.file? path).isNone &&
    tree.files.any fun file => liesBelow tree.storage path file.path

def refuseShape (storage : Storage) (path : String) : Reading :=
  match storage with
  | .memory => .missing
  | .disk => .refused s!"readfile {path}: invalid argument"
  | .embedded | .bundle => .refused s!"read {path}: invalid argument"

def refuseDirectory (storage : Storage) (path : String) : Reading :=
  match storage with
  | .memory => .refused s!"read {path}: invalid argument"
  | .disk | .embedded => .refused s!"read {path}: is a directory"
  | .bundle => .missing

def read (tree : StubTree) (path : String) : Reading :=
  if !isPath path then refuseShape tree.storage path
  else if tree.isFile then .refused s!"open {path}: not a directory"
  else match tree.file? path with
    | some file => .file file
    | none =>
      if tree.isDirectory path then refuseDirectory tree.storage path
      else if tree.storage == .disk
          && tree.files.any fun file => Text.hasPrefix path (file.path ++ "/") then
        .refused s!"open {path}: not a directory"
      else .missing

abbrev unreadable (path reason : String) : Stop :=
  .fault (.plain s!"reading stub {path}: {reason}")

def module? (tree : StubTree) (name : String) : Except Stop (Option StubModule) :=
  let base := "/".intercalate (Text.split '.' name)
  let path := base ++ stubExtension
  match tree.read path with
  | .refused reason => .error (unreadable path reason)
  | .file file => .ok (some (file.moduleNamed name false))
  | .missing =>
    let path := Path.join base (packageFile ++ stubExtension)
    match tree.read path with
    | .refused reason => .error (unreadable path reason)
    | .file file => .ok (some (file.moduleNamed name true))
    | .missing =>
      if tree.isDirectory base then .ok (some { decl := { name, isPackage := true } })
      else .ok none

abbrev notFound (qualName : String) : Fault :=
  .coded .stubNotFound s!"no stub declares {qualName}"

/-- Where a name leads inside a module: to a declaration, through an alias, or nowhere. -/
inductive Route where
  | found (decl : Decl)
  | through (target : String)
  | nowhere

def descend : Decl → List String → Route
  | decl, [] => .found decl
  | .class_ decl, name :: rest =>
    match Table.get? decl.members name with
    | some member => descend member rest
    | none => .nowhere
  | .aliasOf decl, _ :: _ => .through decl.target
  | _, _ :: _ => .nowhere

section Modules

variable {m : Type → Type} [Monad m] [MonadExceptOf Stop m]

def longestModuleBy (find : String → m (Option StubModule)) (rest : List String) :
    List String → m (Option (StubModule × List String))
  | [] => return none
  | last :: outer => do
    match ← find (".".intercalate (last :: outer).reverse) with
    | some found => return some (found, rest)
    | none => longestModuleBy find (last :: rest) outer

def resolveBy (find : String → m (Option StubModule)) : Nat → String → m Decl
  | 0, _ => throw (Stop.crash .endless)
  | steps + 1, qualName => do
    match ← longestModuleBy find [] (Text.split '.' qualName).reverse with
    | none => throw (Stop.fault (notFound qualName))
    | some (found, []) => return .module found.decl
    | some (found, first :: rest) =>
      match found.members.get? first with
      | none => throw (Stop.fault (notFound qualName))
      | some decl =>
        match descend decl rest with
        | .found decl => return decl
        | .through target =>
          resolveBy find steps (target ++ "." ++ ".".intercalate rest)
        | .nowhere => throw (Stop.fault (notFound qualName))

end Modules

def maxAliasSteps : Nat :=
  10000

def resolve (tree : StubTree) (qualName : String) : Except Stop Decl :=
  resolveBy tree.module? maxAliasSteps qualName

end StubTree

end Stubwise
