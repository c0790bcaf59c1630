import Stubwise.Token

namespace Stubwise

inductive Code where
  | unboundName | contextMisuse | typeVariableAccess | unmatchedOverload | malformedOverload
  | unificationFailure | malformedDict | stubNotFound | unsupported | attributeNotFound
  | notCallable
  | unexpectedToken | illegalCharacter | badIndentation | invalidTarget | nestingTooDeep
  | config
  | other (text : String)
  deriving DecidableEq, Repr, Inhabited

namespace Code

def text : Code → String
  | unboundName => "I001" | contextMisuse => "I002" | typeVariableAccess => "I003"
  | unmatchedOverload => "I004" | malformedOverload => "I005" | unificationFailure => "I006"
  | malformedDict => "I007" | stubNotFound => "I008" | unsupported => "I009"
  | attributeNotFound => "I010" | notCallable => "I011"
  | unexpectedToken => "P001" | illegalCharacter => "P002" | badIndentation => "P003"
  | invalidTarget => "P004" | nestingTooDeep => "P005"
  | config => "C001"
  | other text => text

def known : List Code :=
  [unboundName, contextMisuse, typeVariableAccess, unmatchedOverload, malformedOverload,
   unificationFailure, malformedDict, stubNotFound, unsupported, attributeNotFound, notCallable,
   unexpectedToken, illegalCharacter, badIndentation, invalidTarget, nestingTooDeep, config]

def ofText (text : String) : Code :=
  (known.find? (·.text == text)).getD (other text)

def name : Code → String
  | unboundName => "UnboundName" | contextMisuse => "ScopeContractViolation"
  | typeVariableAccess => "TypeVarAccessViolation" | unmatchedOverload => "UnmatchedOverload"
  | malformedOverload => "MalformedOverload" | unificationFailure => "GenericUnificationFailure"
  | malformedDict => "MalformedDictConstruction" | stubNotFound => "StubNotFound"
  | unsupported => "UnsupportedConstruct" | attributeNotFound => "AttributeNotFound"
  | notCallable => "NotCallable"
  | unexpectedToken => "UnexpectedToken" | illegalCharacter => "IllegalCharacter"
  | badIndentation => "IndentationError" | invalidTarget => "InvalidTarget"
  | nestingTooDeep => "NestingTooDeep"
  | config => "ConfigError"
  | other text => text

end Code

structure Diagnostic where
  code : Code
  message : String
  position : Position := {}
  file : String := ""
  node : String := ""
  frames : List String := []
  deriving DecidableEq, Repr, Inhabited

namespace Diagnostic

def placedAt (diagnostic : Diagnostic) (position : Position) : Diagnostic :=
  if diagnostic.position.isSet then diagnostic else { diagnostic with position }

def withNode (diagnostic : Diagnostic) (node : String) : Diagnostic :=
  if diagnostic.node.isEmpty then { diagnostic with node } else diagnostic

def inFile (diagnostic : Diagnostic) (file : String) : Diagnostic :=
  if diagnostic.file.isEmpty then { diagnostic with file } else diagnostic

def placeText (diagnostic : Diagnostic) : String :=
  let file := if diagnostic.file.isEmpty then "" else diagnostic.file ++ ":"
  if diagnostic.position.isSet then file ++ diagnostic.position.text ++ ": "
  else if diagnostic.file.isEmpty then "" else file ++ " "

def text (diagnostic : Diagnostic) : String :=
  let node := if diagnostic.node.isEmpty then "" else s!" (in `{diagnostic.node}`)"
  let frames := String.join (diagnostic.frames.map ("\n\t" ++ ·))
  diagnostic.placeText ++ s!"{diagnostic.code.text} {diagnostic.code.name}: {diagnostic.message}"
    ++ node ++ frames

/-- Whether `a` may stand before `b` in a report: by line and column, those without a position
last. -/
def precedes (a b : Diagnostic) : Bool :=
  if !a.position.isSet then !b.position.isSet
  else if !b.position.isSet then true
  else if a.position.line != b.position.line then a.position.line < b.position.line
  else a.position.col ≤ b.position.col

def sorted (diagnostics : List Diagnostic) : List Diagnostic :=
  diagnostics.mergeSort precedes

end Diagnostic

end Stubwise
