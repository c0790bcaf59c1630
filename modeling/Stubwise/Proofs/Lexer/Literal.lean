import Stubwise.Token.Literal

namespace Stubwise.Literal

def Body.length : Body → Nat
  | closed _ length | unterminated length => length

@[simp]
theorem Body.length_skip (value : List Char) (count : Nat) (body : Body) :
    (body.skip value count).length = count + body.length := by
  cases body <;> rfl

variable {style : Style} {quote c : Char} {triple : Bool} {rest : List Char}

theorem scanBody_stops (stops : (c == endChar || (c == '\n' && !triple)) = true)
    (rest : List Char) : scanBody style quote triple (c :: rest) = .unterminated 0 := by
  rw [scanBody.eq_def]
  simp only [stops, if_true]

theorem scanBody_char (goesOn : (c == endChar || (c == '\n' && !triple)) = false)
    (open_ : (c == quote && (!triple || [quote, quote].isPrefixOf rest)) = false)
    (plain : (c == '\\') = false) :
    scanBody style quote triple (c :: rest) = (scanBody style quote triple rest).skip [c] 1 := by
  rw [scanBody.eq_def]
  simp only [goesOn, open_, plain, Bool.false_eq_true, if_false]

variable (isQuote : quote = '"' ∨ quote = '\'')

include isQuote

theorem beq_quote (c : Char) (other : c ≠ '"' ∧ c ≠ '\'' := by decide) (rest : List Char) :
    (c == quote && (!triple || [quote, quote].isPrefixOf rest)) = false := by
  rcases isQuote with rfl | rfl <;> simp [other]

theorem scanBody_closes (most : (!triple || [quote, quote].isPrefixOf rest) = true) :
    scanBody style quote triple (quote :: rest) = .closed [] (if triple then 3 else 1) := by
  have goesOn : (quote == endChar || (quote == '\n' && !triple)) = false := by
    rcases isQuote with rfl | rfl <;> rfl
  rw [scanBody.eq_def]
  simp only [goesOn, most, BEq.rfl, Bool.true_and, Bool.false_eq_true, if_false, if_true]

theorem scanBody_escaped (decoded : style.verbatim = false) (rest : List Char) :
    scanBody style quote triple ('\\' :: rest) =
      (scanBody style quote triple (rest.drop (escape rest).2)).skip (escape rest).1
        ((escape rest).2 + 1) := by
  have goesOn : ('\\' == endChar || ('\\' == '\n' && !triple)) = false := rfl
  rw [scanBody.eq_def]
  simp only [goesOn, beq_quote isQuote '\\', decoded, BEq.rfl,
    Bool.false_eq_true, if_false, if_true]

end Stubwise.Literal
