import Stubwise.Text.Find
import Stubwise.Tree.Expr

/-!
Indices that are written as integers. The digits may be in base two, eight, ten or sixteen, and a
leading zero alone means base eight.
-/

namespace Stubwise

namespace Index

def digit? (c : Char) : Option Nat :=
  if '0' ≤ c ∧ c ≤ '9' then some (c.toNat - '0'.toNat)
  else if 'a' ≤ c ∧ c ≤ 'z' then some (c.toNat - 'a'.toNat + 10)
  else if 'A' ≤ c ∧ c ≤ 'Z' then some (c.toNat - 'A'.toNat + 10)
  else none

def ofDigits? (base : Nat) : Nat → List Char → Option Nat
  | value, [] => some value
  | value, c :: rest => do
    let digit ← digit? c
    if digit < base then ofDigits? base (value * base + digit) rest else none

def magnitude? : List Char → Option Nat
  | [] => none
  | ['0', c] => do ofDigits? 8 0 [c]
  | '0' :: mark :: rest =>
    if mark == 'b' || mark == 'B' then ofDigits? 2 0 rest
    else if mark == 'o' || mark == 'O' then ofDigits? 8 0 rest
    else if mark == 'x' || mark == 'X' then ofDigits? 16 0 rest
    else ofDigits? 8 0 (mark :: rest)
  | digits => ofDigits? 10 0 digits

def largest : Nat :=
  9223372036854775807

def ofLiteral? (text : String) : Option Int := do
  let value ← magnitude? (text.toList.filter (· != '_'))
  if value ≤ largest then some value else none

end Index

def Expr.index? : Expr → Option Int
  | constant _ .int text => Index.ofLiteral? text
  | unary _ .minus (constant _ .int text) => (Index.ofLiteral? text).map (- ·)
  | _ => none

def elementAt? {α : Type} (elements : List α) (index : Int) : Option α :=
  let index := if index < 0 then index + elements.length else index
  if index < 0 then none else elements[index.toNat]?

end Stubwise
