import Stubwise.Parser.Field

/-!
The fields of a formatted literal, read off its text. A field is described by the first places at
which its expression, its conversion and its format come to an end.
-/

namespace Stubwise.Parser

open List Parser.Field

/-- What one more character makes of a place. In a format quotes do not count. -/
inductive Steps (quotes : Bool) : Place → Char → Place → Prop where
  | inside {depth quote c} (other : c ≠ quote) :
      Steps quotes ⟨depth, some quote⟩ c ⟨depth, some quote⟩
  | unquotes {depth quote} : Steps quotes ⟨depth, some quote⟩ quote ⟨depth, none⟩
  | quotes {depth c} (mark : c ∈ ['\'', '"']) :
      Steps quotes ⟨depth, none⟩ c ⟨depth, if quotes then some c else none⟩
  | opens {depth c} (bracket : c ∈ ['(', '[', '\x7b']) :
      Steps quotes ⟨depth, none⟩ c ⟨depth + 1, none⟩
  | closes {depth c} (bracket : c ∈ [')', ']', '\x7d']) :
      Steps quotes ⟨depth, none⟩ c ⟨depth - 1, none⟩
  | other {depth c} (plain : c ∉ ['\'', '"', '(', '[', '\x7b', ')', ']', '\x7d']) :
      Steps quotes ⟨depth, none⟩ c ⟨depth, none⟩

/-- A field closes at a brace that no brace inside it has opened, or at the end of the text. -/
def Closes (place : Place) (text : List Char) : Prop :=
  text = [] ∨ place.depth ≤ 0 ∧ place.quote = none ∧ ∃ rest, text = '\x7d' :: rest

/-- A value ends where its field closes or its format begins. -/
def EndsValue (place : Place) (text : List Char) : Prop :=
  Closes place text ∨ place = ⟨0, none⟩ ∧ ∃ rest, text = ':' :: rest

/-- An expression ends where its value does, or where a conversion begins. -/
def EndsExpr (place : Place) (text : List Char) : Prop :=
  EndsValue place text ∨ place = ⟨0, none⟩ ∧ ∃ c rest, text = '!' :: c :: rest ∧ c ≠ '='

/-- From one place, the text up to the first place at which it stops. -/
inductive Until (quotes : Bool) (stop : Place → List Char → Prop) :
    Place → List Char → List Char → Place → List Char → Prop where
  | here {place text} (stops : stop place text) : Until quotes stop place text [] place text
  | past {place c next text taken last rest} (on : ¬ stop place (c :: text))
      (steps : Steps quotes place c next) (later : Until quotes stop next text taken last rest) :
      Until quotes stop place (c :: text) (c :: taken) last rest

/-- The parts of a field behind its opening brace: the expression as it is written, the format, and
the text behind the field. The format counts only if the field is closed. -/
inductive Divides : List Char → List Char → List Char → List Char → Prop where
  | plain {text written conversion behind rest place last}
      (expr : Until true EndsExpr ⟨0, none⟩ text written place behind)
      (value : Until true EndsValue place behind conversion last rest)
      (unformatted : ∀ format, rest ≠ ':' :: format) : Divides text written [] rest.tail
  | formatted {text written conversion behind spec format rest place last closed}
      (expr : Until true EndsExpr ⟨0, none⟩ text written place behind)
      (value : Until true EndsValue place behind conversion last (':' :: spec))
      (closes : Until false Closes ⟨0, none⟩ spec format closed rest) :
      Divides text written (if rest.isEmpty then [] else format) rest.tail

/-- An expression is written with a sign of equality behind it, to be shown with its value. -/
def IsSigned (written expr : List Char) : Prop :=
  (written.reverse.dropWhile (· == ' ')).reverse = expr ++ ['='] ∧
    ∀ c ∈ expr.getLast?, c ∉ ['=', '!', '<', '>']

/-- The fields of the body of a literal that are not blank, each followed by those of its format. -/
inductive Fields : List Char → List (List Char) → Prop where
  | nil : Fields [] []
  | escaped {c rest fields} (brace : c = '\x7b' ∨ c = '\x7d') (others : Fields rest fields) :
      Fields (c :: c :: rest) fields
  | other {c rest fields} (plain : c ≠ '\x7b') (single : c = '\x7d' → ∀ more, rest ≠ '\x7d' :: more)
      (others : Fields rest fields) : Fields (c :: rest) fields
  | field {text written expr format rest inner fields} (single : ∀ more, text ≠ '\x7b' :: more)
      (divides : Divides text written format rest)
      (shown : IsSigned written expr ∨ expr = written ∧ ∀ expr, ¬ IsSigned written expr)
      (within : Fields format inner) (others : Fields rest fields) :
      Fields ('\x7b' :: text) ((if expr.all Text.isSpace then [] else [expr]) ++ inner ++ fields)

namespace Field

variable {quotes : Bool} (place : Place)

end Field

end Stubwise.Parser
