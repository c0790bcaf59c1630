import Stubwise.Text.Find

namespace Stubwise.Parser

/-- Leaves out the sign behind an expression that is shown with its value. -/
def withoutEquals (field : List Char) : List Char :=
  match field.reverse.dropWhile (· == ' ') with
  | '=' :: rest => if rest.head?.any ['=', '!', '<', '>'].contains then field else rest.reverse
  | _ => field

structure Field where
  expr : List Char
  format : List Char
  rest : List Char

namespace Field

/-- How deep in brackets a place in a field is, and inside which quotes. -/
structure Place where
  depth : Int := 0
  quote : Option Char := none

namespace Place

/-- The place behind one more character. In a format quotes do not count. -/
def pass (place : Place) (quotes : Bool) (c : Char) : Place :=
  match place.quote with
  | some quote => if c == quote then { place with quote := none } else place
  | none =>
    if c == '\'' || c == '"' then { place with quote := if quotes then some c else none }
    else if c == '(' || c == '[' || c == '\x7b' then { place with depth := place.depth + 1 }
    else if c == ')' || c == ']' || c == '\x7d' then { place with depth := place.depth - 1 }
    else place

def isTop (place : Place) : Bool :=
  place.depth == 0 && place.quote.isNone

def closes (place : Place) (text : List Char) : Bool :=
  place.depth ≤ 0 && place.quote.isNone && text.head? == some '\x7d'

def endsValue (place : Place) (text : List Char) : Bool :=
  place.closes text || place.isTop && text.head? == some ':'

def endsExpr (place : Place) (text : List Char) : Bool :=
  place.endsValue text || match text with
    | '!' :: c :: _ => place.isTop && c != '='
    | _ => false

end Place

/-- Splits a text at the first place at which it stops. -/
def upTo (quotes : Bool) (stops : Place → List Char → Bool) :
    Place → List Char → List Char × Place × List Char
  | place, [] => ([], place, [])
  | place, c :: text =>
    if stops place (c :: text) then ([], place, c :: text)
    else
      let (taken, last, rest) := upTo quotes stops (place.pass quotes c) text
      (c :: taken, last, rest)

/-- Reads a field behind its opening brace. Its format counts only if it is closed. -/
def read (text : List Char) : Field :=
  let (expr, place, behind) := upTo true Place.endsExpr {} text
  let expr := withoutEquals expr
  match (upTo true Place.endsValue place behind).2.2 with
  | ':' :: text =>
    let (format, _, rest) := upTo false Place.closes {} text
    { expr, format := if rest.isEmpty then [] else format, rest := rest.tail }
  | rest => { expr, format := [], rest := rest.tail }

end Field

/-- The expressions of all fields of a string body, each followed by those of its format. -/
def fieldsWithin : Nat → List Char → List (List Char)
  | 0, _ | _, [] => []
  | fuel + 1, '\x7b' :: '\x7b' :: rest => fieldsWithin fuel rest
  | fuel + 1, '\x7b' :: rest =>
    let field := Field.read rest
    let own := if Text.isBlankText field.expr then [] else [field.expr]
    own ++ fieldsWithin fuel field.format ++ fieldsWithin fuel field.rest
  | fuel + 1, '\x7d' :: '\x7d' :: rest => fieldsWithin fuel rest
  | fuel + 1, _ :: rest => fieldsWithin fuel rest

def fields (body : String) : List String :=
  (fieldsWithin body.length body.toList).map String.ofList

end Stubwise.Parser
