import Stubwise.Text.Quoted
import Stubwise.Token.Cursor

/-!
String and number literals. The scanners read the characters of a literal from a list and say how
many of them belong to it; the lexer moves its cursor by that many.
-/

namespace Stubwise.Literal

open Text

/-- How the body of a string literal is read. Raw and formatted bodies keep their backslashes. -/
structure Style where
  raw : Bool := false
  bytes : Bool := false
  formatted : Bool := false
  deriving DecidableEq, Repr

def Style.ofLetters? (letters : String) : Option Style :=
  match letters.toList.map Char.toLower with
  | ['r'] => some { raw := true }
  | ['u'] => some {}
  | ['b'] => some { bytes := true }
  | ['f'] => some { formatted := true }
  | ['b', 'r'] | ['r', 'b'] => some { raw := true, bytes := true }
  | ['f', 'r'] | ['r', 'f'] => some { raw := true, formatted := true }
  | _ => none

def Style.verbatim (style : Style) : Bool :=
  style.raw || style.formatted

def Style.kind (style : Style) : TokenKind :=
  if style.formatted then .fstring else if style.bytes then .bytes else .string

def hexValue (c : Char) : Nat :=
  if isDigit c then c.toNat - '0'.toNat
  else if 'a' ≤ c && c ≤ 'f' then c.toNat - 'a'.toNat + 10
  else if 'A' ≤ c && c ≤ 'F' then c.toNat - 'A'.toNat + 10
  else 0

def hexNumber (digits : List Char) : Nat :=
  digits.foldl (fun value c => value * 16 + hexValue c) 0

def isScalar (code : Nat) : Bool :=
  code < 0xd800 || (0xe000 ≤ code && code < 0x110000)

/-- The character with the given code; codes of no character read as the replacement character. -/
def charOfCode (code : Nat) : Char :=
  if isScalar code then Char.ofNat code else Char.ofNat 0xfffd

/-- An escape by `width` hexadecimal digits after `letter`. With fewer digits, or with a code that
`valid` refuses, the backslash and the letter stay and the digits that were read are lost. -/
def hexEscape (letter : Char) (width : Nat) (valid : Nat → Bool) (after : List Char) :
    List Char × Nat :=
  let digits := (after.takeWhile isHexDigit).take width
  if digits.length == width && valid (hexNumber digits) then
    ([charOfCode (hexNumber digits)], width + 1)
  else (['\\', letter], digits.length + 1)

def escape : List Char → List Char × Nat
  | [] => ([], 0)
  | c :: rest =>
    if c == endChar then ([], 0)
    else if c == 'n' then (['\n'], 1)
    else if c == 't' then (['\t'], 1)
    else if c == 'r' then (['\r'], 1)
    else if c == '0' then ([endChar], 1)
    else if c == 'a' then ([Char.ofNat 7], 1)
    else if c == 'b' then ([Char.ofNat 8], 1)
    else if c == 'f' then ([Char.ofNat 12], 1)
    else if c == 'v' then ([Char.ofNat 11], 1)
    else if c == '\\' || c == '\'' || c == '"' then ([c], 1)
    else if c == '\n' then ([], 1)
    else if c == 'x' then hexEscape 'x' 2 (fun _ => true) rest
    else if c == 'u' then hexEscape 'u' 4 (fun _ => true) rest
    else if c == 'U' then hexEscape 'U' 8 isScalar rest
    else (['\\', c], 1)

/-- The body of a string literal: its decoded value and how many characters it takes, the closing
quotes included; or how far it was read without meeting its end. -/
inductive Body where
  | closed (value : List Char) (length : Nat)
  | unterminated (length : Nat)
  deriving Repr

def Body.skip (value : List Char) (length : Nat) : Body → Body
  | closed tail taken => closed (value ++ tail) (length + taken)
  | unterminated taken => unterminated (length + taken)

def scanBody (style : Style) (quote : Char) (triple : Bool) : List Char → Body
  | [] => .unterminated 0
  | c :: rest =>
    if c == endChar || (c == '\n' && !triple) then .unterminated 0
    else if c == quote && (!triple || [quote, quote].isPrefixOf rest) then
      .closed [] (if triple then 3 else 1)
    else if c == '\\' then
      if style.verbatim then
        match rest with
        | [] => .unterminated 1
        | d :: after =>
          if d == endChar then .unterminated 1
          else (scanBody style quote triple after).skip [c, d] 2
      else
        let (value, taken) := escape rest
        (scanBody style quote triple (rest.drop taken)).skip value (taken + 1)
    else (scanBody style quote triple rest).skip [c] 1
termination_by cs => cs.length
decreasing_by all_goals simp only [List.length_cons, List.length_drop]; omega

/-- How many characters at the front are digits, with single underscores between them. -/
def digitRun : List Char → Nat
  | [] => 0
  | c :: rest =>
    if isDigit c then digitRun rest + 1
    else if c == '_' then
      match rest with
      | d :: _ => if isDigit d then digitRun rest + 1 else 0
      | [] => 0
    else 0

/-- The outcome of reading a number: the kind of the literal, or why it is refused, and how many
characters were read. -/
inductive Number where
  | number (kind : TokenKind) (length : Nat)
  | badInteger (length : Nat)
  | badNumber (length : Nat)
  deriving Repr

def radixOf? (c : Char) : Option Nat :=
  if c == 'x' || c == 'X' then some 16
  else if c == 'o' || c == 'O' then some 8
  else if c == 'b' || c == 'B' then some 2
  else none

def exponentLength : List Char → Nat
  | e :: rest =>
    if e == 'e' || e == 'E' then
      match rest with
      | d :: after =>
        if isDigit d then digitRun rest + 1
        else if (d == '+' || d == '-') && isDigit (after.headD endChar) then digitRun after + 2
        else 0
      | [] => 0
    else 0
  | [] => 0

def hasPoint (cs : List Char) : Bool :=
  cs.headD endChar == '.' && cs.tail.headD endChar != '.'

def fractionLength (cs : List Char) : Nat :=
  if hasPoint cs then digitRun cs.tail + 1 else 0

def isImaginary (cs : List Char) : Bool :=
  cs.headD endChar == 'j' || cs.headD endChar == 'J'

def suffixLength (cs : List Char) : Nat :=
  if isImaginary cs then 1 else 0

def scanDecimal (cs : List Char) : Number :=
  let whole := digitRun cs
  let afterWhole := cs.drop whole
  let fraction := fractionLength afterWhole
  let afterFraction := afterWhole.drop fraction
  let exponent := exponentLength afterFraction
  let afterExponent := afterFraction.drop exponent
  let suffix := suffixLength afterExponent
  let length := whole + fraction + exponent + suffix
  let tail := afterExponent.drop suffix
  if isLetter (tail.headD endChar) then
    .badNumber (length + (tail.takeWhile fun c => isLetter c || isDigit c).length)
  else if isImaginary afterExponent then .number .imag length
  else if hasPoint afterWhole || exponent != 0 then .number .float length
  else .number .int length

def scanNumber (cs : List Char) : Number :=
  match cs with
  | '0' :: mark :: rest =>
    match radixOf? mark with
    | some radix =>
      let digits := rest.takeWhile fun c => isHexDigit c || c == '_'
      let clean := digits.filter (· != '_')
      if !clean.isEmpty && clean.all (hexValue · < radix) then .number .int (digits.length + 2)
      else .badInteger (digits.length + 2)
    | none => scanDecimal cs
  | _ => scanDecimal cs

end Stubwise.Literal
