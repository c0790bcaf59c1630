import Stubwise.Text.Path

namespace Stubwise

def packageFile : String :=
  "__init__"

def stubExtension : String :=
  ".pyi"

def sourceExtensions : List String :=
  [".py", stubExtension]

namespace ModuleName

def extension? (path : String) : Option String :=
  sourceExtensions.find? (Text.hasSuffix path)

def hasExtension (path : String) : Bool :=
  (extension? path).isSome

def dropExtension (path : String) : String :=
  match extension? path with
  | some extension => Text.dropEnd extension.length path
  | none => path

def ofFile (path : String) : String :=
  dropExtension (Path.baseName path)

def directory (path : String) : String :=
  if hasExtension path then Path.dirName path else path

def dottedParts (relative : String) : List String :=
  let parts := Text.split '/' (dropExtension relative)
  if 1 < parts.length && parts.getLast? == some packageFile then parts.dropLast else parts

def dotted (root path : String) : Except String String :=
  match Path.relative? root path with
  | none => .error s!"Rel: can't make {path} relative to {root}"
  | some relative =>
    if relative == ".." || Text.hasPrefix relative "../" then
      .error s!"{path} is outside {root}"
    else .ok (".".intercalate (dottedParts relative))

end ModuleName

end Stubwise
