namespace Stubwise.Text.Base64

def digit? (c : Char) : Option Nat :=
  if 'A' ≤ c ∧ c ≤ 'Z' then some (c.toNat - 'A'.toNat)
  else if 'a' ≤ c ∧ c ≤ 'z' then some (c.toNat - 'a'.toNat + 26)
  else if '0' ≤ c ∧ c ≤ '9' then some (c.toNat - '0'.toNat + 52)
  else if c == '+' then some 62
  else if c == '/' then some 63
  else none

def bytes (a b c d : Nat) : List Nat :=
  [a * 4 + b / 16, b % 16 * 16 + c / 4, c % 4 * 64 + d]

def decodeGroups? : List Char → Option (List Nat)
  | [] => some []
  | [a, b, '=', '='] => do
    some ((bytes (← digit? a) (← digit? b) 0 0).take 1)
  | [a, b, c, '='] => do
    some ((bytes (← digit? a) (← digit? b) (← digit? c) 0).take 2)
  | a :: b :: c :: d :: rest => do
    let group := bytes (← digit? a) (← digit? b) (← digit? c) (← digit? d)
    some (group ++ (← decodeGroups? rest))
  | _ => none

def decode? (text : String) : Option (List Nat) :=
  decodeGroups? (text.toList.filter fun c => c != '\n' && c != '\r')

end Stubwise.Text.Base64
