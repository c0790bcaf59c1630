namespace Stubwise.Yaml.Timestamp

def number? : List Char → Option (Nat × List Char)
  | [] => none
  | a :: rest =>
    if !a.isDigit then none
    else match rest with
      | [] => some (digit a, [])
      | b :: after => if b.isDigit then some (digit a * 10 + digit b, after) else some (digit a, rest)
where
  digit (c : Char) : Nat :=
    c.toNat - '0'.toNat

def mark? (mark : Char) : List Char → Option (List Char)
  | [] => none
  | c :: rest => if c == mark then some rest else none

def isLeap (year : Nat) : Bool :=
  year % 4 == 0 && (year % 100 != 0 || year % 400 == 0)

def daysIn (year month : Nat) : Nat :=
  if month == 2 then if isLeap year then 29 else 28
  else if [4, 6, 9, 11].contains month then 30
  else 31

def date? (chars : List Char) : Option (List Char) := do
  let digits := chars.takeWhile Char.isDigit
  if digits.length != 4 then none
  else
    let year := digits.foldl (fun value c => value * 10 + (c.toNat - '0'.toNat)) 0
    let (month, rest) ← number? (← mark? '-' (chars.drop 4))
    let (day, rest) ← number? (← mark? '-' rest)
    if 1 ≤ month && month ≤ 12 && 1 ≤ day && day ≤ daysIn year month then some rest else none

def skipFraction : List Char → List Char
  | mark :: c :: rest =>
    if (mark == '.' || mark == ',') && c.isDigit then rest.dropWhile Char.isDigit
    else mark :: c :: rest
  | chars => chars

def time? (chars : List Char) : Option (List Char) := do
  let (hour, rest) ← number? chars
  let (minute, rest) ← number? (← mark? ':' rest)
  let (second, rest) ← number? (← mark? ':' rest)
  if hour < 24 && minute < 60 && second < 60 then some (skipFraction rest) else none

def isZone : List Char → Bool
  | ['Z'] => true
  | [sign, a, b, ':', c, d] =>
    (sign == '+' || sign == '-') && [a, b, c, d].all Char.isDigit &&
      String.ofList [a, b] ≤ "24" && String.ofList [c, d] ≤ "60"
  | _ => false

def isTimestamp (text : String) : Bool :=
  match date? text.toList with
  | none => false
  | some [] => true
  | some (mark :: rest) =>
    if mark == 'T' || mark == 't' then (time? rest).any isZone
    else mark == ' ' && (time? (rest.dropWhile (· == ' '))).any List.isEmpty

end Stubwise.Yaml.Timestamp
