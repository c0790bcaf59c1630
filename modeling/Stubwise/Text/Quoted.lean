import Stubwise.Text.Printable

namespace Stubwise.Text

def hexDigits (value : Nat) : Nat → List Char
  | 0 => []
  | width + 1 => hexDigits (value / 16) width ++ [Nat.digitChar (value % 16)]

def controlLetter? (c : Char) : Option Char :=
  match c.toNat with
  | 7 => some 'a'
  | 8 => some 'b'
  | 9 => some 't'
  | 10 => some 'n'
  | 11 => some 'v'
  | 12 => some 'f'
  | 13 => some 'r'
  | _ => none

def escapedChar (printable : Char → Bool) (quote c : Char) : List Char :=
  if c == quote || c == '\\' then ['\\', c]
  else if printable c then [c]
  else match controlLetter? c with
    | some letter => ['\\', letter]
    | none =>
      if c.toNat < 0x20 || c.toNat == 0x7f then '\\' :: 'x' :: hexDigits c.toNat 2
      else if c.toNat < 0x10000 then '\\' :: 'u' :: hexDigits c.toNat 4
      else '\\' :: 'U' :: hexDigits c.toNat 8

/-- A text between quotes, where only the printable characters stand for themselves. -/
def quoteBy (printable : Char → Bool) (text : String) : String :=
  String.ofList ('"' :: text.toList.flatMap (escapedChar printable '"') ++ ['"'])

def quote (text : String) : String :=
  quoteBy isPrintable text

def quoteChar (c : Char) : String :=
  String.ofList ('\'' :: escapedChar isPrintable '\'' c ++ ['\''])

end Stubwise.Text
