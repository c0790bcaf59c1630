import Mathlib.Data.List.TakeWhile
import Stubwise.Proofs.Lexer.Lexeme
import Stubwise.Proofs.Lexer.Literal

namespace Stubwise

open List

variable {c : Char} {after behind cs ds rest : List Char} {count more : Nat}

namespace Text

/-- The text with a carriage return in front of every line end. -/
def crlf : List Char → List Char
  | [] => []
  | c :: rest => if c = '\n' then '\r' :: '\n' :: crlf rest else c :: crlf rest

/-- In front of the same text, with and without carriage returns. The carriage return of the next line
end may have been passed already. -/
inductive InStep : List Char → List Char → Prop
  | before (text : List Char) : InStep text (crlf text)
  | between (text : List Char) : InStep ('\n' :: text) ('\n' :: crlf text)

@[simp]
theorem crlf_nil : crlf [] = [] := rfl

@[simp]
theorem crlf_lineEnd (text : List Char) : crlf ('\n' :: text) = '\r' :: '\n' :: crlf text := rfl

theorem crlf_cons (inLine : c ≠ '\n') (text : List Char) : crlf (c :: text) = c :: crlf text := by
  rw [crlf, if_neg inLine]

theorem InStep.nil (inStep : InStep [] ds) : ds = [] := by
  cases inStep
  rfl

theorem InStep.cons {c : Char} {text ds : List Char} (inStep : InStep (c :: text) ds) :
    (c ≠ '\n' ∧ ds = c :: crlf text) ∨
      (c = '\n' ∧ (ds = '\r' :: '\n' :: crlf text ∨ ds = '\n' :: crlf text)) := by
  cases inStep with
  | before =>
    by_cases lineEnd : c = '\n'
    · exact .inr ⟨lineEnd, .inl (by rw [lineEnd, crlf_lineEnd])⟩
    · exact .inl ⟨lineEnd, crlf_cons lineEnd text⟩
  | between => exact .inr ⟨rfl, .inr rfl⟩

section Prefixes

variable {text : List Char}

theorem take_crlf (single : '\n' ∉ text.take count) : (crlf text).take count = text.take count := by
  induction count generalizing text with
  | zero => rfl
  | succ _ ih =>
    cases text with
    | nil => rfl
    | cons =>
      rw [take_succ_cons, mem_cons, not_or] at single
      rw [crlf_cons (Ne.symm single.1), take_succ_cons, take_succ_cons, ih single.2]

theorem drop_crlf (single : '\n' ∉ text.take count) : (crlf text).drop count = crlf (text.drop count) := by
  induction count generalizing text with
  | zero => rfl
  | succ _ ih =>
    cases text with
    | nil => rfl
    | cons =>
      rw [take_succ_cons, mem_cons, not_or] at single
      rw [crlf_cons (Ne.symm single.1), drop_succ_cons, drop_succ_cons, ih single.2]

theorem lineEnd_not_mem_take_add {first : Nat} (start : '\n' ∉ text.take first)
    (later : '\n' ∉ (text.drop first).take more) : '\n' ∉ text.take (first + more) := by
  rw [take_add, mem_append, not_or]
  exact ⟨start, later⟩

theorem headD_crlf {α : Type} (see : Char → α) (blind : see '\r' = see '\n') (default : Char)
    (text : List Char) : see ((crlf text).headD default) = see (text.headD default) := by
  fun_cases crlf text with
  | case1 | case3 => rfl
  | case2 => exact blind

variable (accept : Char → Bool) (lineEnd : accept '\n' = false) (carriage : accept '\r' = false)

include lineEnd carriage

theorem takeWhile_crlf (text : List Char) : (crlf text).takeWhile accept = text.takeWhile accept := by
  fun_induction crlf text with
  | case1 => rfl
  | case2 => simp [lineEnd, carriage]
  | case3 _ _ _ ih => rw [takeWhile_cons, takeWhile_cons, ih]

omit carriage in
theorem lineEnd_not_mem_takeWhile (text : List Char) : '\n' ∉ text.takeWhile accept := by
  intro member
  rw [mem_takeWhile_imp member] at lineEnd
  cases lineEnd

omit carriage in
theorem lineEnd_not_mem_take_takeWhile (text : List Char) :
    '\n' ∉ text.take (text.takeWhile accept).length := by
  rw [← prefix_iff_eq_take.mp (List.takeWhile_prefix accept)]
  exact lineEnd_not_mem_takeWhile accept lineEnd text

theorem dropWhile_crlf (text : List Char) : (crlf text).dropWhile accept = crlf (text.dropWhile accept) := by
  fun_induction crlf text with
  | case1 => rfl
  | case2 => simp [lineEnd, carriage]
  | case3 _ _ inLine ih =>
    rw [dropWhile_cons, dropWhile_cons, ih]
    split
    · rfl
    · rw [crlf_cons inLine]

omit lineEnd carriage

theorem dropWhile_crlf_inStep (lineEnd : accept '\n' = false) (carriage : accept '\r')
    (text : List Char) : InStep (text.dropWhile accept) ((crlf text).dropWhile accept) := by
  fun_induction crlf text with
  | case1 => exact .before []
  | case2 text =>
    simp only [dropWhile_cons, lineEnd, carriage, if_true, Bool.false_eq_true, if_false]
    exact .between text
  | case3 c text inLine ih =>
    rw [dropWhile_cons, dropWhile_cons]
    split
    · exact ih
    · rw [← crlf_cons inLine]
      exact .before (c :: text)

theorem isPrefixOf_crlf {start : List Char} (lineEnd : '\n' ∉ start) (carriage : '\r' ∉ start)
    (text : List Char) : start.isPrefixOf (crlf text) = start.isPrefixOf text := by
  induction start generalizing text with
  | nil => simp
  | cons _ _ ih =>
    rw [mem_cons, not_or] at lineEnd carriage
    fun_cases crlf text with
    | case1 => rfl
    | case2 =>
      simp [isPrefixOf, beq_eq_false_iff_ne.mpr (Ne.symm lineEnd.1),
        beq_eq_false_iff_ne.mpr (Ne.symm carriage.1)]
    | case3 => rw [isPrefixOf, isPrefixOf, ih lineEnd.2 carriage.2]

end Prefixes

end Text

namespace Literal

open Text

variable {body other : Body}

theorem digitRun_cons (c : Char) (rest : List Char) : digitRun (c :: rest) =
    if isDigit c || (c == '_' && isDigit (rest.headD endChar)) then digitRun rest + 1 else 0 := by
  have none : isDigit endChar = false := rfl
  rw [digitRun.eq_def]
  cases digit : isDigit c <;> cases underscore : c == '_' <;> cases rest <;>
    simp [digit, underscore, none]

theorem digitRun_crlf (cs : List Char) : digitRun (crlf cs) = digitRun cs := by
  fun_induction crlf cs with
  | case1 | case2 => rfl
  | case3 _ _ _ ih => rw [digitRun_cons, digitRun_cons, headD_crlf isDigit rfl, ih]

theorem lineEnd_not_mem_digitRun (cs : List Char) : '\n' ∉ cs.take (digitRun cs) := by
  induction cs with
  | nil => exact not_mem_nil
  | cons c rest ih =>
    rw [digitRun_cons]
    split
    next digit =>
      rw [take_succ_cons, mem_cons, not_or]
      refine ⟨?_, ih⟩
      rintro rfl
      cases digit
    next => exact not_mem_nil

theorem exponentLength_crlf (cs : List Char) : exponentLength (crlf cs) = exponentLength cs := by
  fun_cases crlf cs with
  | case1 | case2 => rfl
  | case3 _ rest =>
    have run := digitRun_crlf rest
    fun_cases crlf rest with
    | case1 | case2 => rfl
    | case3 _ _ inLine =>
      rw [crlf_cons inLine] at run
      simp only [exponentLength, run, digitRun_crlf, headD_crlf isDigit rfl]

theorem lineEnd_not_mem_exponent (cs : List Char) : '\n' ∉ cs.take (exponentLength cs) := by
  have letter {e : Char} (mark : (e == 'e' || e == 'E') = true) : '\n' ≠ e := by
    rintro rfl
    cases mark
  fun_cases exponentLength cs with
  | case1 _ mark =>
    rw [take_succ_cons, mem_cons, not_or]
    exact ⟨letter mark, lineEnd_not_mem_digitRun _⟩
  | case2 _ mark _ _ _ sign =>
    rw [take_succ_cons, take_succ_cons, mem_cons, mem_cons, not_or, not_or]
    refine ⟨letter mark, ?_, lineEnd_not_mem_digitRun _⟩
    rintro rfl
    cases sign
  | case3 | case4 | case5 | case6 => exact not_mem_nil

theorem hasPoint_crlf (cs : List Char) : hasPoint (crlf cs) = hasPoint cs := by
  fun_cases crlf cs with
  | case1 | case2 => rfl
  | case3 =>
    rw [hasPoint, hasPoint, tail_cons, tail_cons, headD_crlf (· != '.') rfl]
    rfl

theorem fractionLength_crlf (cs : List Char) : fractionLength (crlf cs) = fractionLength cs := by
  have point := hasPoint_crlf cs
  fun_cases crlf cs with
  | case1 | case2 => rfl
  | case3 _ rest inLine =>
    rw [crlf_cons inLine] at point
    rw [fractionLength, fractionLength, point, tail_cons, digitRun_crlf rest, tail_cons]

theorem lineEnd_not_mem_fraction (cs : List Char) : '\n' ∉ cs.take (fractionLength cs) := by
  unfold fractionLength
  split
  next point =>
    cases cs with
    | nil => exact not_mem_nil
    | cons _ rest =>
      rw [take_succ_cons, mem_cons, not_or]
      refine ⟨?_, lineEnd_not_mem_digitRun rest⟩
      rintro rfl
      cases point
  next => exact not_mem_nil

theorem isImaginary_crlf (cs : List Char) : isImaginary (crlf cs) = isImaginary cs :=
  headD_crlf (fun c => c == 'j' || c == 'J') rfl endChar cs

theorem lineEnd_not_mem_suffix (cs : List Char) : '\n' ∉ cs.take (suffixLength cs) := by
  unfold suffixLength
  split
  next imaginary =>
    cases cs with
    | nil => exact not_mem_nil
    | cons =>
      rw [take_succ_cons, take_zero, mem_singleton]
      rintro rfl
      cases imaginary
  next => exact not_mem_nil

theorem isLetter_carriage : isLetter '\r' = isLetter '\n' := by
  decide

theorem scanDecimal_crlf (cs : List Char) : scanDecimal (crlf cs) = scanDecimal cs := by
  have whole (cs : List Char) := drop_crlf (lineEnd_not_mem_digitRun cs)
  have fraction (cs : List Char) := drop_crlf (lineEnd_not_mem_fraction cs)
  have exponent (cs : List Char) := drop_crlf (lineEnd_not_mem_exponent cs)
  have suffix (cs : List Char) := drop_crlf (lineEnd_not_mem_suffix cs)
  have letters := takeWhile_crlf (fun c => isLetter c || isDigit c) (by decide) (by decide)
  have marked (cs : List Char) : suffixLength (crlf cs) = suffixLength cs := by
    rw [suffixLength, isImaginary_crlf, suffixLength]
  simp only [scanDecimal, digitRun_crlf, whole, fractionLength_crlf, fraction,
    exponentLength_crlf, exponent, marked, suffix, letters, isImaginary_crlf, hasPoint_crlf,
    headD_crlf isLetter isLetter_carriage]

theorem lineEnd_not_mem_scanDecimal (cs : List Char) :
    '\n' ∉ cs.take (Lexer.Number.length (scanDecimal cs)) := by
  have fraction := lineEnd_not_mem_take_add (lineEnd_not_mem_digitRun cs) (lineEnd_not_mem_fraction _)
  have exponent := lineEnd_not_mem_take_add fraction (lineEnd_not_mem_exponent _)
  have suffix := lineEnd_not_mem_take_add exponent (lineEnd_not_mem_suffix _)
  simp only [scanDecimal, drop_drop]
  split
  next =>
    exact lineEnd_not_mem_take_add suffix (lineEnd_not_mem_take_takeWhile _ (by decide) _)
  next =>
    split
    next => exact suffix
    next => split <;> exact suffix

theorem scanNumber_of_decimal (decimal : ∀ mark rest, cs = '0' :: mark :: rest → radixOf? mark = none) :
    scanNumber cs = scanDecimal cs := by
  unfold scanNumber
  split
  next mark rest => rw [decimal mark rest rfl]
  next => rfl

theorem scanNumber_of_radix {mark : Char} {radix : Nat} (given : radixOf? mark = some radix)
    (rest : List Char) : scanNumber ('0' :: mark :: rest) =
      let digits := rest.takeWhile fun c => isHexDigit c || c == '_'
      let clean := digits.filter (· != '_')
      if !clean.isEmpty && clean.all (hexValue · < radix) then .number .int (digits.length + 2)
      else .badInteger (digits.length + 2) := by
  unfold scanNumber
  split
  next other after shape =>
    obtain ⟨-, behind⟩ := cons.inj shape
    obtain ⟨rfl, rfl⟩ := cons.inj behind
    rw [given]
  next none => exact absurd rfl (none mark rest)

theorem crlf_eq_cons (shape : crlf cs = c :: rest) :
    (∃ after, cs = '\n' :: after ∧ c = '\r' ∧ rest = '\n' :: crlf after) ∨
      ∃ after, cs = c :: after ∧ rest = crlf after := by
  fun_cases crlf cs with
  | case1 => cases shape
  | case2 after =>
    obtain ⟨rfl, rfl⟩ := cons.inj shape
    exact .inl ⟨after, rfl, rfl, rfl⟩
  | case3 _ after inLine =>
    rw [crlf_cons inLine] at shape
    obtain ⟨rfl, rfl⟩ := cons.inj shape
    exact .inr ⟨after, rfl, rfl⟩

theorem scanNumber_crlf (cs : List Char) :
    scanNumber (crlf cs) = scanNumber cs ∧ '\n' ∉ cs.take (Lexer.Number.length (scanNumber cs)) := by
  by_cases decimal : ∀ mark rest, cs = '0' :: mark :: rest → radixOf? mark = none
  · have other : ∀ mark rest, crlf cs = '0' :: mark :: rest → radixOf? mark = none := by
      intro mark rest shape
      rcases crlf_eq_cons shape with ⟨after, -, zero, -⟩ | ⟨after, whole, behind⟩
      · exact absurd zero (by decide)
      · rcases crlf_eq_cons behind.symm with ⟨later, -, rfl, -⟩ | ⟨later, shape, -⟩
        · rfl
        · exact decimal mark later (by rw [whole, shape])
    rw [scanNumber_of_decimal decimal, scanNumber_of_decimal other]
    exact ⟨scanDecimal_crlf cs, lineEnd_not_mem_scanDecimal cs⟩
  · simp only [not_forall] at decimal
    obtain ⟨mark, rest, rfl, given⟩ := decimal
    obtain ⟨radix, given⟩ := Option.ne_none_iff_exists'.mp given
    have inLine : mark ≠ '\n' := by
      rintro rfl
      cases given
    have digits := takeWhile_crlf (fun c => isHexDigit c || c == '_') (by decide) (by decide)
    have none := lineEnd_not_mem_take_takeWhile (fun c => isHexDigit c || c == '_') (by decide) rest
    rw [crlf_cons (by decide), crlf_cons inLine, scanNumber_of_radix given, scanNumber_of_radix given, digits]
    dsimp only
    split <;>
    · rw [Lexer.Number.length, take_succ_cons, take_succ_cons]
      simp [Ne.symm inLine, none]

theorem hexEscape_crlf (letter : Char) (width : Nat) (valid : Nat → Bool) (after : List Char) :
    hexEscape letter width valid (crlf after) = hexEscape letter width valid after := by
  rw [hexEscape, takeWhile_crlf isHexDigit (by decide) (by decide), hexEscape]

theorem lineEnd_not_mem_hexEscape {letter : Char} (inLine : letter ≠ '\n') (width : Nat)
    (valid : Nat → Bool) (after : List Char) :
    '\n' ∉ (letter :: after).take (hexEscape letter width valid after).2 := by
  have taken : (hexEscape letter width valid after).2 =
      ((after.takeWhile isHexDigit).take width).length + 1 := by
    unfold hexEscape
    dsimp only
    split
    next whole =>
      rw [Bool.and_eq_true, beq_iff_eq] at whole
      rw [whole.1]
    next => rfl
  have digits := lineEnd_not_mem_take_takeWhile isHexDigit (by decide) after
  rw [taken, take_succ_cons, mem_cons, not_or]
  refine ⟨Ne.symm inLine, fun member => digits ?_⟩
  exact take_subset_take_left _ (by rw [length_take]; exact Nat.min_le_right ..) member

theorem escape_crlf (inLine : cs.head? ≠ some '\n') :
    escape (crlf cs) = escape cs ∧ '\n' ∉ cs.take (escape cs).2 := by
  cases cs with
  | nil => exact ⟨rfl, not_mem_nil⟩
  | cons c rest =>
    have inLine : c ≠ '\n' := fun same => inLine (by rw [same]; rfl)
    refine ⟨by simp only [crlf_cons inLine, escape, hexEscape_crlf], ?_⟩
    by_cases hex : c = 'x' ∨ c = 'u' ∨ c = 'U'
    · rcases hex with rfl | rfl | rfl
      · exact lineEnd_not_mem_hexEscape inLine 2 (fun _ => true) rest
      · exact lineEnd_not_mem_hexEscape inLine 4 (fun _ => true) rest
      · exact lineEnd_not_mem_hexEscape inLine 8 isScalar rest
    · have short : (escape (c :: rest)).2 ≤ 1 := by
        simp only [not_or] at hex
        simp only [escape, beq_iff_eq, hex, if_false, apply_ite Prod.snd, ite_self]
        split <;> decide
      intro member
      have first := take_subset_take_left _ short member
      simp [Ne.symm inLine] at first

def Body.isClosed : Body → Bool
  | closed .. => true
  | unterminated _ => false

/-- The bodies of two literals that end at the same place of a text, with and without carriage
returns. -/
structure Body.Same (cs ds : List Char) (body other : Body) : Prop where
  closed : other.isClosed = body.isClosed
  rest : InStep (cs.drop body.length) (ds.drop other.length)

@[simp]
theorem Body.isClosed_skip (value : List Char) (count : Nat) (body : Body) :
    (body.skip value count).isClosed = body.isClosed := by
  cases body <;> rfl

theorem Body.Same.skip (same : Body.Same after behind body other) (one : cs.drop count = after)
    (two : ds.drop more = behind) (value read : List Char) :
    Body.Same cs ds (body.skip value count) (other.skip read more) := by
  subst one two
  refine ⟨by simpa using same.closed, ?_⟩
  simpa [drop_drop] using same.rest

theorem Body.Same.skipOther
    (same : Body.Same cs behind body other) (two : ds.drop more = behind) (read : List Char) :
    Body.Same cs ds body (other.skip read more) := by
  subst two
  refine ⟨by simpa using same.closed, ?_⟩
  simpa [drop_drop] using same.rest

section Scanning

variable {style : Style} {quote : Char} {triple : Bool}

variable (isQuote : quote = '"' ∨ quote = '\'')

include isQuote

theorem lineEnd_not_mem_quotes (most : (!triple || [quote, quote].isPrefixOf rest) = true) :
    '\n' ∉ (quote :: rest).take (if triple then 3 else 1) := by
  have inLine : '\n' ≠ quote := by rcases isQuote with rfl | rfl <;> decide
  cases triple with
  | false => simpa using inLine
  | true =>
    obtain ⟨after, rfl⟩ := isPrefixOf_iff_prefix.mp most
    simpa using inLine

theorem scanBody_carriage (rest : List Char) :
    scanBody style quote triple ('\r' :: rest) =
      (scanBody style quote triple rest).skip ['\r'] 1 :=
  scanBody_char rfl (beq_quote isQuote _ (by decide) rest) rfl

theorem scanBody_lineEnd (rest : List Char) :
    scanBody style quote true ('\n' :: rest) = (scanBody style quote true rest).skip ['\n'] 1 :=
  scanBody_char rfl (beq_quote isQuote _ (by decide) rest) rfl

theorem scanBody_backslash (verbatim : style.verbatim) {d : Char}
    (inText : (d == endChar) = false) (after : List Char) :
    scanBody style quote triple ('\\' :: d :: after) =
      (scanBody style quote triple after).skip ['\\', d] 2 := by
  have goesOn : ('\\' == endChar || ('\\' == '\n' && !triple)) = false := rfl
  rw [scanBody.eq_def]
  simp only [goesOn, beq_quote isQuote '\\', verbatim, inText,
    BEq.rfl, Bool.false_eq_true, if_false, if_true]

theorem scanBody_cut (verbatim : style.verbatim) (ended : (rest.headD endChar == endChar) = true) :
    scanBody style quote triple ('\\' :: rest) = .unterminated 1 := by
  have goesOn : ('\\' == endChar || ('\\' == '\n' && !triple)) = false := rfl
  rw [scanBody.eq_def]
  simp only [goesOn, beq_quote isQuote '\\', verbatim, BEq.rfl,
    Bool.false_eq_true, if_false, if_true]
  cases rest with
  | nil => rfl
  | cons =>
    rw [headD_cons] at ended
    simp only [ended, if_true]

/-- Whether a literal may take this part of a text: with one quote it stays on its line. -/
def Inside (triple : Bool) (count : Nat) (cs : List Char) : Prop :=
  triple = true ∨ '\n' ∉ cs.take count

omit isQuote in
theorem Inside.split (inside : Inside triple (count + more) cs) :
    Inside triple count cs ∧ Inside triple more (cs.drop count) := by
  unfold Inside at inside ⊢
  rw [take_add, mem_append, not_or] at inside
  rcases inside with three | ⟨first, later⟩
  · exact ⟨.inl three, .inl three⟩
  · exact ⟨.inr first, .inr later⟩

omit isQuote in
theorem Inside.single (inside : Inside triple count cs) (member : '\n' ∈ cs.take count) : triple = true :=
  inside.resolve_right fun none => none member

theorem Body.Same.escapedLineEnd (same : Body.Same after (crlf after) (scanBody style quote true after)
      (scanBody style quote true (crlf after))) (value read : List Char) :
    Body.Same ('\\' :: '\n' :: after) ('\\' :: '\r' :: '\n' :: crlf after)
      ((scanBody style quote true after).skip value 2)
      ((scanBody style quote true ('\n' :: crlf after)).skip read 2) := by
  rw [scanBody_lineEnd isQuote]
  exact (same.skipOther rfl _).skip rfl rfl value read

/-- The body of a string is read alike with and without carriage returns. -/
theorem scanBody_crlf (cs : List Char) (inside : Inside triple (scanBody style quote triple cs).length cs) :
    Body.Same cs (crlf cs) (scanBody style quote triple cs) (scanBody style quote triple (crlf cs)) := by
  have quoteInLine : quote ≠ '\n' := by rcases isQuote with rfl | rfl <;> decide
  have quotePlain : quote ≠ '\r' := by rcases isQuote with rfl | rfl <;> decide
  have doubled (rest : List Char) :=
    isPrefixOf_crlf (by simpa using Ne.symm quoteInLine : '\n' ∉ [quote, quote])
      (by simpa using Ne.symm quotePlain) rest
  fun_induction scanBody style quote triple cs with
  | case1 =>
    rw [crlf_nil, scanBody.eq_def]
    exact ⟨rfl, .before []⟩
  | case2 c rest stops =>
    by_cases lineEnd : c = '\n'
    · subst lineEnd
      rw [crlf_lineEnd, scanBody_carriage isQuote, scanBody_stops stops]
      exact ⟨rfl, .between rest⟩
    · rw [crlf_cons lineEnd, scanBody_stops stops]
      exact ⟨rfl, crlf_cons lineEnd rest ▸ .before (c :: rest)⟩
  | case3 c rest _ closes =>
    obtain ⟨rfl, most⟩ : c = quote ∧ (!triple || [quote, quote].isPrefixOf rest) = true := by
      simpa only [Bool.and_eq_true, beq_iff_eq] using closes
    rw [crlf_cons quoteInLine, scanBody_closes isQuote (by rw [doubled]; exact most)]
    refine ⟨rfl, ?_⟩
    rw [← crlf_cons quoteInLine, Body.length, drop_crlf (lineEnd_not_mem_quotes isQuote most)]
    exact .before _
  | case4 _ _ backslash verbatim =>
    cases eq_of_beq backslash
    rw [crlf_cons (by decide), crlf_nil, scanBody_cut isQuote verbatim rfl]
    exact ⟨rfl, .before []⟩
  | case5 _ _ backslash verbatim d after ended =>
    cases eq_of_beq backslash
    have cut : ((crlf (d :: after)).headD endChar == endChar) = true :=
      (headD_crlf (· == endChar) rfl endChar (d :: after)).trans ended
    rw [crlf_cons (by decide), scanBody_cut isQuote verbatim cut]
    exact ⟨rfl, .before (d :: after)⟩
  | case6 _ _ backslash verbatim d _ inText _ ih =>
    cases eq_of_beq backslash
    rw [Body.length_skip] at inside
    obtain ⟨first, later⟩ := inside.split
    by_cases lineEnd : d = '\n'
    · subst lineEnd
      cases first.single (by simp)
      rw [crlf_cons (by decide), crlf_lineEnd, scanBody_backslash isQuote verbatim rfl]
      exact (ih later).escapedLineEnd isQuote _ _
    · rw [crlf_cons (by decide), crlf_cons lineEnd,
        scanBody_backslash isQuote verbatim (by simpa using inText)]
      exact (ih later).skip rfl rfl _ _
  | case7 c rest _ _ backslash decoded value taken escaped ih =>
    cases eq_of_beq backslash
    rw [Body.length_skip] at inside
    obtain ⟨first, later⟩ := inside.split
    have decoded : style.verbatim = false := by simpa using decoded
    rw [crlf_cons (by decide), scanBody_escaped isQuote decoded]
    by_cases lineEnd : rest.head? = some '\n'
    · obtain ⟨after, rfl⟩ : ∃ after, rest = '\n' :: after := by
        cases rest with
        | nil => cases lineEnd
        | cons _ after => exact ⟨after, by rw [Option.some.inj lineEnd]⟩
      obtain ⟨rfl, rfl⟩ : [] = value ∧ 1 = taken := Prod.mk.inj escaped
      cases first.single (by simp)
      exact (ih later).escapedLineEnd isQuote _ _
    · obtain ⟨same, inLine⟩ := escape_crlf lineEnd
      rw [escaped] at same inLine
      rw [same, drop_crlf inLine]
      refine (ih later).skip (drop_succ_cons ..) ?_ _ _
      rw [drop_succ_cons, drop_crlf inLine]
  | case8 c _ goesOn open_ plain ih =>
    rw [Body.length_skip] at inside
    obtain ⟨first, later⟩ := inside.split
    have plain : (c == '\\') = false := eq_false_of_ne_true plain
    by_cases lineEnd : c = '\n'
    · subst lineEnd
      cases first.single (by simp)
      rw [crlf_lineEnd, scanBody_carriage isQuote, scanBody_lineEnd isQuote]
      exact ((ih later).skip rfl rfl _ _).skipOther rfl _
    · rw [crlf_cons lineEnd, scanBody_char (eq_false_of_ne_true goesOn)
        (by rw [doubled]; exact eq_false_of_ne_true open_) plain]
      exact (ih later).skip rfl rfl _ _

end Scanning

end Literal

end Stubwise
