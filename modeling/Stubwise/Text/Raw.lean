import Stubwise.Text.Quoted

namespace Stubwise.Text

inductive Piece where
  | char (c : Char)
  | stray (byte : Nat)
  deriving DecidableEq, Repr, Inhabited

abbrev Raw := List Piece

namespace Raw

def ofString (text : String) : Raw :=
  text.toList.map .char

def shown (raw : Raw) : String :=
  String.ofList (raw.map fun
    | .char c => c
    | .stray _ => '�')

def quote (raw : Raw) : String :=
  String.ofList ('"' :: (raw.flatMap fun
    | .char c => escapedChar isPrintable '"' c
    | .stray byte => '\\' :: 'x' :: hexDigits byte 2) ++ ['"'])

/-- How many bytes follow the first one of a character, and the least code of such a character. -/
def trail? (first : Nat) : Option (Nat × Nat) :=
  if first < 0x80 then some (0, 0)
  else if 0xc0 ≤ first && first < 0xe0 then some (1, 0x80)
  else if 0xe0 ≤ first && first < 0xf0 then some (2, 0x800)
  else if 0xf0 ≤ first && first < 0xf8 then some (3, 0x10000)
  else none

def isTrailing (byte : Nat) : Bool :=
  0x80 ≤ byte && byte < 0xc0

def charAt? (first : Nat) (rest : List Nat) : Option (Char × Nat) := do
  let (count, least) ← trail? first
  let trail := rest.take count
  if trail.length != count || !trail.all isTrailing then none
  else
    let start := if count == 0 then first else first % (64 >>> count)
    let code := trail.foldl (fun code byte => code * 64 + byte % 64) start
    if least ≤ code && (code < 0xd800 || (0xdfff < code && code ≤ 0x10ffff)) then
      some (Char.ofNat code, count)
    else none

def ofBytes (bytes : List Nat) : Raw :=
  match bytes with
  | [] => []
  | first :: rest =>
    match charAt? first rest with
    | some (c, count) => .char c :: ofBytes (rest.drop count)
    | none => .stray first :: ofBytes rest
termination_by bytes.length
decreasing_by
  · simp only [List.length_cons, List.length_drop]
    omega
  · simp only [List.length_cons]
    omega

end Raw

end Stubwise.Text
