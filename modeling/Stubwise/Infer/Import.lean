import Stubwise.Infer.Walker

namespace Stubwise

abbrev reportingAt (position : Position) (run : Infer Unit) : Infer Unit := do
  match ← attempt run with
  | .ok _ => return ()
  | .error fault => Session.reportFault fault position

abbrev anyOnFault (position : Position) (run : Infer Ty) : Infer Ty := do
  match ← attempt run with
  | .ok t => return t
  | .error fault => do
    Session.reportFault fault position
    return .any

namespace Walker

abbrev importModule (walker : Walker) (imported : ImportName) : Infer Unit := do
  let target := imported.boundName
  let position := imported.mark.position
  let stubs := (← get).stubs
  match ← attempt (Session.ofStubs (stubs.follow imported.name)) with
  | .error fault => do
    Session.reportFault fault position
    let _ ← attempt (Session.storeName walker.frame target .any)
  | .ok decl => do
    let t ←
      if imported.asName.isEmpty then pure (.module target)
      else anyOnFault position (Session.ofStubs (stubs.value decl))
    reportingAt position (Session.storeName walker.frame target t)

/-- The module that an import names. -/
abbrev absoluteModule (position : Position) (module : String) (level : Nat) : Infer String := do
  if level == 0 then return module
  let current := (← get).module
  let parts := Text.split '.' current
  if parts.length ≤ level then
    throw (.ofDiagnostic {
      code := .stubNotFound
      message := s!"attempted relative import beyond top-level package of {current}"
      position })
  let base := ".".intercalate (parts.take (parts.length - level))
  return if module.isEmpty then base else base ++ "." ++ module

def importName (walker : Walker) (module : String) (imported : ImportName) : Infer Unit := do
  let target := if imported.asName.isEmpty then imported.name else imported.asName
  let position := imported.mark.position
  let t ← anyOnFault position do Session.ofExcept (← Session.moduleMember module imported.name)
  reportingAt position (Session.storeName walker.frame target t)

abbrev importPublic (walker : Walker) (module name : String) : Infer Unit := do
  if Text.hasPrefix name "_" then return ()
  let value ← Session.moduleMember module name
  Session.modifyFrame walker.frame (·.declare name)
  Session.storeName walker.frame name (value.toOption.getD .any)

/-- `from m import *` binds the names of the module that do not start with an underscore. -/
def importAll (walker : Walker) (position : Position) (module : String) : Infer Unit :=
  placingAt position do
    match ← Session.ofStubs ((← get).stubs.follow module) with
    | .module decl => decl.names.forM (walker.importPublic decl.name)
    | _ => throw (.ofDiagnostic {
        code := .stubNotFound, message := s!"{module} is not a module", position })

def importFrom (walker : Walker) (position : Position) (module : String)
    (names : List ImportName) (level : Nat) : Infer Unit := do
  let module ← absoluteModule position module level
  match names with
  | [imported] =>
    if imported.name == "*" then walker.importAll position module
    else walker.importName module imported
  | names => names.forM (walker.importName module)

end Walker

end Stubwise
