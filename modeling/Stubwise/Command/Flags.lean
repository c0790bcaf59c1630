import Stubwise.Data.Table
import Stubwise.Text.Find
import Stubwise.Text.Quoted

namespace Stubwise

inductive FlagKind where
  | switch
  | text
  deriving DecidableEq, Repr, Inhabited

structure Flag where
  name : String
  kind : FlagKind
  usage : String
  initial : String := ""
  deriving DecidableEq, Repr, Inhabited

structure Arguments where
  values : Table String := []
  rest : List String := []
  deriving Inhabited

namespace Arguments

def isOn (arguments : Arguments) (name : String) : Bool :=
  arguments.values.get? name == some "true"

def text (arguments : Arguments) (flag : Flag) : String :=
  (arguments.values.get? flag.name).getD flag.initial

end Arguments

inductive FlagFault where
  | help
  | refused (message : String)
  deriving DecidableEq, Repr, Inhabited

namespace Flag

def usageLine (flag : Flag) : String :=
  let head := "  -" ++ flag.name ++ if flag.kind == .text then " string" else ""
  let gap := if head.utf8ByteSize ≤ 4 then "\t" else "\n    \t"
  let initial := if flag.initial.isEmpty then "" else s!" (default {Text.quote flag.initial})"
  head ++ gap ++ flag.usage ++ initial ++ "\n"

def usage_ (command : String) (flags : List Flag) : String :=
  let ordered := flags.mergeSort fun a b => decide (a.name ≤ b.name)
  s!"Usage of {command}:\n" ++ String.join (ordered.map usageLine)

def faultText (command : String) (flags : List Flag) : FlagFault → String
  | .help => usage_ command flags
  | .refused message => message ++ "\n" ++ usage_ command flags

def truth? (text : String) : Option Bool :=
  if ["1", "t", "T", "true", "TRUE", "True"].contains text then some true
  else if ["0", "f", "F", "false", "FALSE", "False"].contains text then some false
  else none

inductive Given where
  | value (text : String)
  | needsNext
  | fault (fault : FlagFault)

def nameAndValue (body : String) : String × Option String :=
  match body.toList with
  | [] => ("", none)
  | first :: rest =>
    let name := first :: rest.takeWhile (· != '=')
    match rest.dropWhile (· != '=') with
    | [] => (String.ofList name, none)
    | _ :: value => (String.ofList name, some (String.ofList value))

def lookUp (flags : List Flag) (name : String) (value : Option String) : Given :=
  match flags.find? (·.name == name), value with
  | none, _ =>
    .fault (if name == "help" || name == "h" then .help
      else .refused s!"flag provided but not defined: -{name}")
  | some { kind := .text, .. }, some value => .value value
  | some { kind := .text, .. }, none => .needsNext
  | some { kind := .switch, .. }, none => .value "true"
  | some { kind := .switch, .. }, some value =>
    match truth? value with
    | some truth => .value (if truth then "true" else "false")
    | none => .fault (.refused
        s!"invalid boolean value {Text.quote value} for -{name}: parse error")

def body? (argument : String) : Option String :=
  match argument.toList with
  | '-' :: '-' :: rest => some (String.ofList rest)
  | '-' :: c :: rest => some (String.ofList (c :: rest))
  | _ => none

def isMalformed (body : String) : Bool :=
  match body.toList.head? with
  | none => true
  | some c => c == '-' || c == '='

def parse (flags : List Flag) (values : Table String) :
    List String → Except FlagFault Arguments
  | [] => .ok { values }
  | argument :: rest =>
    if argument == "--" then .ok { values, rest }
    else match body? argument with
      | none => .ok { values, rest := argument :: rest }
      | some body =>
        if isMalformed body then .error (.refused s!"bad flag syntax: {argument}")
        else
          let (name, value) := nameAndValue body
          match lookUp flags name value, rest with
          | .fault fault, _ => .error fault
          | .value value, rest => parse flags (values.set name value) rest
          | .needsNext, [] => .error (.refused s!"flag needs an argument: -{name}")
          | .needsNext, value :: rest => parse flags (values.set name value) rest

end Flag

end Stubwise
