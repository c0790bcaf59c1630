import Stubwise.Text.Path
import Stubwise.Yaml.Decode

namespace Stubwise

structure Project where
  stubPaths : List String := []
  bundles : List String := []
  builtins : String := ""
  maxDepth : Int := 0
  strictOverloads : Bool := false
  verbose : Bool := false
  dir : String := ""
  deriving DecidableEq, Repr, Inhabited

namespace Project

def fileNames : List String :=
  ["stubinfer.yaml", "stubinfer.yml"]

def embeddedBuiltins : String :=
  "embedded"

def noBuiltins : String :=
  "none"

def defaultDepth : Nat :=
  512

structure Draft where
  stubPaths : List Text.Raw := []
  bundles : List Text.Raw := []
  builtins : Text.Raw := []
  maxDepth : Int := 0
  strictOverloads : Bool := false
  verbose : Bool := false
  deriving DecidableEq, Repr, Inhabited

open Yaml (Decode) in
def fields : Decode.Fields Draft :=
  [("stub_paths", fun draft node =>
      return { draft with stubPaths := (← Decode.texts node).getD draft.stubPaths }),
    ("bundles", fun draft node =>
      return { draft with bundles := (← Decode.texts node).getD draft.bundles }),
    ("builtins", fun draft node =>
      return { draft with builtins := (← Decode.text node).getD draft.builtins }),
    ("max_depth", fun draft node =>
      return { draft with maxDepth := (← Decode.int node).getD draft.maxDepth }),
    ("strict_overloads", fun draft node =>
      return { draft with strictOverloads := (← Decode.bool node).getD draft.strictOverloads }),
    ("verbose", fun draft node =>
      return { draft with verbose := (← Decode.bool node).getD draft.verbose })]

inductive Refusal where
  | malformed
  | invalid (message : String)
  | crashed
  deriving DecidableEq, Repr, Inhabited

def Refusal.ofFault : Yaml.Fault → Refusal
  | .refused => malformed
  | .unusableKey => crashed

def emptyPath (path key : String) (index : Nat) : String :=
  s!"{path}: {key}[{index}]: empty path"

def stubPathFault? (path : String) (earlier : List Text.Raw) : List Text.Raw → Option String
  | [] => none
  | stubPath :: rest =>
    let index := earlier.length
    if stubPath.isEmpty then some (emptyPath path "stub_paths" index)
    else if earlier.contains stubPath then
      let first := earlier.idxOf stubPath
      some (s!"{path}: stub_paths[{index}]: duplicate of stub_paths[{first}] " ++
        s!"({stubPath.shown})")
    else stubPathFault? path (earlier ++ [stubPath]) rest

def Draft.fault? (path : String) (draft : Draft) : Option String :=
  let known := ["", embeddedBuiltins, noBuiltins]
  if !known.contains draft.builtins.shown then
    some (s!"{path}: builtins: unknown source {draft.builtins.quote} " ++
      s!"(want {Text.quote embeddedBuiltins} or {Text.quote noBuiltins})")
  else if draft.builtins.shown == noBuiltins && draft.stubPaths.isEmpty && draft.bundles.isEmpty then
    some (s!"{path}: builtins is {Text.quote noBuiltins} " ++
      "but no stub_paths or bundles are configured")
  else if draft.maxDepth < 0 then some s!"{path}: max_depth must not be negative"
  else
    (stubPathFault? path [] draft.stubPaths).or
      ((draft.bundles.findIdx? (·.isEmpty)).map (emptyPath path "bundles"))

def ofDraft (dir : String) (draft : Draft) : Project where
  stubPaths := draft.stubPaths.map (·.shown)
  bundles := draft.bundles.map (·.shown)
  builtins := draft.builtins.shown
  maxDepth := draft.maxDepth
  strictOverloads := draft.strictOverloads
  verbose := draft.verbose
  dir := dir

def withDefaults (project : Project) : Project :=
  { project with
    builtins := if project.builtins.isEmpty then embeddedBuiltins else project.builtins
    maxDepth := if project.maxDepth == 0 then defaultDepth else project.maxDepth }

def default : Project :=
  withDefaults {}

def Draft.parse (text : String) : Except Refusal Draft :=
  match Yaml.parse text with
  | none => throw .malformed
  | some none => return {}
  | some (some document) => (document.decode fields {}).mapError .ofFault

def parse (path text : String) : Except Refusal Project := do
  let draft ← Draft.parse text
  match draft.fault? path with
  | some message => throw (.invalid message)
  | none => return (ofDraft (Path.dirName path) draft).withDefaults

def resolve (project : Project) (paths : List String) : List String :=
  paths.map fun path =>
    if Path.isRooted path || project.dir.isEmpty then path else Path.join project.dir path

def resolvedStubPaths (project : Project) : List String :=
  project.resolve project.stubPaths

def resolvedBundles (project : Project) : List String :=
  project.resolve project.bundles

end Project

end Stubwise
