import Stubwise.Yaml.Cursor

namespace Stubwise.Yaml

def isNameChar (c : Char) : Bool :=
  c.isAlphanum || c == '_' || c == '-'

namespace Tag

def isUriChar (c : Char) : Bool :=
  isNameChar c || ";/?:@&=+$,.!~*'()[]".toList.contains c

def escapedByte? (cursor : Cursor) : Option (Nat × Cursor) :=
  match cursor.rest with
  | '%' :: a :: b :: _ => do
    let high ← hexDigit? a
    let low ← hexDigit? b
    some (high * 16 + low, cursor.skipMany 3)
  | _ => none

def trailLength? (first : Nat) : Option Nat :=
  if first < 0x80 then some 0
  else if first < 0xc0 then none
  else if first < 0xe0 then some 1
  else if first < 0xf0 then some 2
  else if first < 0xf8 then some 3
  else none

def trailingBytes? : Nat → Nat → Cursor → Option (Nat × Cursor)
  | 0, code, cursor => some (code, cursor)
  | count + 1, code, cursor => do
    let (byte, next) ← escapedByte? cursor
    if 0x80 ≤ byte && byte < 0xc0 then trailingBytes? count (code * 64 + byte % 64) next else none

def escapedChar? (cursor : Cursor) : Option (Char × Cursor) := do
  let (first, next) ← escapedByte? cursor
  let count ← trailLength? first
  let start := if count == 0 then first else first % (64 >>> count)
  let (code, next) ← trailingBytes? count start next
  some (Char.ofNat code, next)

def uriFrom : Nat → String → Cursor → Option (String × Cursor)
  | 0, _, _ => none
  | turns + 1, text, cursor =>
    match cursor.current with
    | none => if cursor.isCut then none else some (text, cursor)
    | some c =>
      if c == '%' then do
        let (c, next) ← escapedChar? cursor
        uriFrom turns (text.push c) next
      else if isUriChar c then uriFrom turns (text.push c) cursor.skip
      else some (text, cursor)

def uri (known : String) (cursor : Cursor) : Option (String × Cursor) :=
  uriFrom (cursor.rest.length + 1) known cursor

def someUri (cursor : Cursor) : Option (String × Cursor) := do
  let (text, next) ← uri "" cursor
  if next.index == cursor.index then none else some (text, next)

def handle (cursor : Cursor) : Option (String × Cursor) :=
  if cursor.current != some '!' then none
  else
    let named := cursor.skip.skipWhile isNameChar
    let name := String.ofList (cursor.rest.take (named.index - cursor.index))
    if named.lacks 1 then none
    else if named.current == some '!' then some (name ++ "!", named.skip)
    else some (name, named)

def read (cursor : Cursor) : Option (String × String × Cursor) := do
  let (known, suffix, next) ←
    if cursor.ahead 1 == some '<' then do
      let (suffix, next) ← someUri cursor.skip.skip
      if next.current == some '>' then some ("", suffix, next.skip) else none
    else do
      let (known, next) ← handle cursor
      if 1 < known.length && known.endsWith "!" then do
        let (suffix, next) ← someUri next
        some (known, suffix, next)
      else do
        let (suffix, next) ← uri (String.ofList (known.toList.drop 1)) next
        if suffix.isEmpty then some ("", "!", next) else some ("!", suffix, next)
  if next.lacks 1 || !next.gapAt 0 then none else some (known, suffix, next)

def standardStart : String :=
  "tag:yaml.org,2002:"

def short (tag : String) : String :=
  if tag.startsWith standardStart then
    "!!" ++ String.ofList (tag.toList.drop standardStart.length)
  else tag

end Tag

inductive Directive where
  | version (major minor : Nat)
  | handle (name start : String)
  deriving DecidableEq, Repr, Inhabited

namespace Directive

def number? (cursor : Cursor) : Option (Nat × Cursor) :=
  let digits := cursor.rest.takeWhile Char.isDigit
  if digits.isEmpty || 2 < digits.length then none
  else
    some (digits.foldl (fun value c => value * 10 + (c.toNat - '0'.toNat)) 0,
      cursor.skipMany digits.length)

def version? (cursor : Cursor) : Option (Directive × Cursor) := do
  let (major, next) ← number? (cursor.skipWhile isBlank)
  if next.current != some '.' then none
  else
    let (minor, next) ← number? next.skip
    some (.version major minor, next)

def handle? (cursor : Cursor) : Option (Directive × Cursor) := do
  let (name, next) ← Tag.handle (cursor.skipWhile isBlank)
  if name != "!" && !(1 < name.length && name.endsWith "!") then none
  else if !next.current.any isBlank then none
  else
    let (start, next) ← Tag.someUri (next.skipWhile isBlank)
    if next.gapAt 0 then some (.handle name start, next) else none

def read (cursor : Cursor) : Option (Directive × Cursor) := do
  let name := String.ofList (cursor.rest.takeWhile isNameChar)
  let next := cursor.skipWhile isNameChar
  if !next.gapAt 0 then none
  else
    let (directive, next) ←
      if name == "YAML" then version? next
      else if name == "TAG" then handle? next
      else none
    let next := next.skipWhile isBlank
    let next := if next.current == some '#' then next.skipWhile (!isBreak ·) else next
    if next.lacks 1 || !next.breakAt 0 then none else some (directive, next.readBreak.2)

end Directive

end Stubwise.Yaml
