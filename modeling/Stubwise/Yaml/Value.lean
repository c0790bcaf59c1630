import Stubwise.Text.Base64
import Stubwise.Text.Raw
import Stubwise.Yaml.Cursor
import Stubwise.Yaml.Timestamp

/-!
The values that scalars stand for. A plain scalar is null, a truth value, a number, a timestamp or a
text, by how it is written; in quotes it is a text.
-/

namespace Stubwise.Yaml

/-- A number that is no integer is kept as the integer next to it towards zero. -/
inductive Value where
  | null
  | bool (value : Bool)
  | int (value : Int)
  | float (truncated : Int)
  | unbounded (isNegative : Bool)
  | timestamp
  | text (content : Text.Raw)
  deriving DecidableEq, Repr, Inhabited

namespace Value

def natOf? (base : Nat) (digits : List Char) : Option Nat :=
  if digits.isEmpty then none
  else digits.foldlM (fun value c => do
    let digit ← hexDigit? c
    if digit < base then some (value * base + digit) else none) 0

def markedNat? : List Char → Option Nat
  | ['0'] => some 0
  | '0' :: mark :: rest =>
    if mark == 'x' || mark == 'X' then natOf? 16 rest
    else if mark == 'o' || mark == 'O' then natOf? 8 rest
    else if mark == 'b' || mark == 'B' then natOf? 2 rest
    else natOf? 8 (mark :: rest)
  | digits => natOf? 10 digits

def signed : List Char → Bool × List Char
  | '-' :: rest => (true, rest)
  | '+' :: rest => (false, rest)
  | chars => (false, chars)

def signedInt? (isNegative : Bool) (value : Nat) : Option Int :=
  if isNegative then if value ≤ Nat.pow 2 63 then some (-(value : Int)) else none
  else if value < Nat.pow 2 63 then some value else none

def int? (chars : List Char) : Option Int :=
  let (isNegative, digits) := signed chars
  (markedNat? digits).bind fun value =>
    if digits.length == chars.length && value < Nat.pow 2 64 then some value
    else signedInt? isNegative value

def innerSignedInt? : List Char → Option Int
  | '0' :: mark :: rest =>
    let (isNegative, digits) := signed rest
    let value :=
      if mark == 'b' then natOf? 2 digits
      else if mark == 'o' then natOf? 8 digits
      else none
    value.bind (signedInt? isNegative)
  | _ => none

def decimalParts? (chars : List Char) : Option (List Char × List Char × Int) :=
  let whole := chars.takeWhile Char.isDigit
  let afterWhole := chars.dropWhile Char.isDigit
  let (fraction, afterFraction) := match afterWhole with
    | '.' :: rest => (rest.takeWhile Char.isDigit, rest.dropWhile Char.isDigit)
    | rest => ([], rest)
  if whole.isEmpty && fraction.isEmpty then none
  else match afterFraction with
    | [] => some (whole, fraction, 0)
    | mark :: rest =>
      if mark == 'e' || mark == 'E' then
        let (isNegative, digits) := signed rest
        (if digits.all Char.isDigit then natOf? 10 digits else none).map fun exponent =>
          (whole, fraction, if isNegative then -(exponent : Int) else exponent)
      else none

/-- The quotient of two numbers to the nearest whole one, of two such to the even one. -/
def nearest (numerator denominator : Nat) : Nat :=
  let whole := numerator / denominator
  let twice := 2 * (numerator % denominator)
  if denominator < twice || (twice == denominator && whole % 2 == 1) then whole + 1 else whole

def wholePart (numerator denominator : Nat) : Nat :=
  let whole := numerator / denominator
  let bits := if whole == 0 then 0 else whole.log2 + 1
  if bits ≤ 53 then nearest (numerator <<< (53 - bits)) denominator >>> (53 - bits)
  else nearest numerator (denominator <<< (bits - 53)) <<< (bits - 53)

def rounded (value : Int) : Int :=
  let magnitude := wholePart value.natAbs 1
  if value < 0 then -(magnitude : Int) else magnitude

def maxExponent : Nat :=
  400

/-- The integer next to a decimal number towards zero. -/
def decimal? (chars : List Char) : Option Int := do
  let (isNegative, digits) := signed chars
  let (whole, fraction, exponent) ← decimalParts? digits
  let mantissa := (natOf? 10 (whole ++ fraction)).getD 0
  let shift := exponent - fraction.length
  let magnitude :=
    if 0 ≤ shift then wholePart (mantissa * Nat.pow 10 (min shift.toNat maxExponent)) 1
    else wholePart mantissa
      (Nat.pow 10 (min (-shift).toNat (whole.length + fraction.length + 1)))
  if magnitude >>> 1024 == 0 then some (if isNegative then -(magnitude : Int) else magnitude)
  else none

def ofWord? (text : String) : Option Value :=
  if ["", "~", "null", "Null", "NULL"].contains text then some null
  else if ["true", "True", "TRUE"].contains text then some (bool true)
  else if ["false", "False", "FALSE"].contains text then some (bool false)
  else if [".inf", ".Inf", ".INF", "+.inf", "+.Inf", "+.INF", ".nan", ".NaN", ".NAN"].contains text
    then some (unbounded false)
  else if ["-.inf", "-.Inf", "-.INF"].contains text then some (unbounded true)
  else none

def separatesDigits : Option Char → List Char → Bool
  | _, [] => true
  | before, c :: rest =>
    (c != '_' || (before.any Char.isDigit && rest.head?.any Char.isDigit)) &&
      separatesDigits (some c) rest

def number? (chars : List Char) : Option Value :=
  let digits := chars.filter (· != '_')
  ((int? digits).map int).or (((decimal? digits).map float).or ((innerSignedInt? digits).map int))

def ofPlain (written : String) : Value :=
  match ofWord? written with
  | some value => value
  | none =>
    let chars := written.toList
    let found := match chars.head? with
      | some '.' =>
        if separatesDigits none chars then (decimal? (chars.filter (· != '_'))).map float
        else none
      | some c =>
        if Timestamp.isTimestamp written then some timestamp
        else if c.isDigit || c == '+' || c == '-' then number? chars
        else none
      | none => none
    found.getD (text (.ofString written))

def tag : Value → String
  | null => "!!null"
  | bool _ => "!!bool"
  | int _ => "!!int"
  | float _ | unbounded _ => "!!float"
  | timestamp => "!!timestamp"
  | text _ => "!!str"

def plainTags : List String :=
  ["!!null", "!!bool", "!!int", "!!float", "!!timestamp"]

def largestSigned : Int :=
  9223372036854775807

/-- The value of what is written with a tag that values have by themselves. -/
def ofTagged? (written content : String) : Option Value :=
  let value := ofPlain content
  if written == value.tag then some value
  else match written, value with
    | "!!float", int value => if value ≤ largestSigned then some (float (rounded value)) else none
    | _, _ => none

/-- The value of a scalar. Without a tag a merge key is a text, as is what stands in quotes; a tag
that is not known makes a text of anything. -/
def ofScalar? (written content : String) (isPlain : Bool) : Option Value :=
  if written.isEmpty then
    some (if isPlain && content != "<<" then ofPlain content else text (.ofString content))
  else if written == "!!binary" then
    (Text.Base64.decode? content).map fun bytes => text (.ofBytes bytes)
  else if plainTags.contains written then ofTagged? written content
  else some (text (.ofString content))

end Value

end Stubwise.Yaml
