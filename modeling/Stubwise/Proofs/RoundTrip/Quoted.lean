import Stubwise.Proofs.Lexer.Literal

/-!
Quoted text reads back: the body of a string literal that was written by quoting a text closes at
the quote behind it, and its value is the text.
-/

namespace Stubwise

open List Text

namespace Text

theorem forall_of_all {chars : List Char} {holds : Char → Prop} [DecidablePred holds]
    (all : chars.all (holds ·)) : ∀ c ∈ chars, holds c :=
  fun c listed => of_decide_eq_true (all_eq_true.mp all c listed)

theorem hexDigits_length (value width : Nat) : (hexDigits value width).length = width := by
  induction width generalizing value with
  | zero => rfl
  | succ _ ih => simp [hexDigits, ih]

theorem isHexDigit_digitChar : ∀ digit < 16, isHexDigit (Nat.digitChar digit) = true := by
  decide

theorem isHexDigit_of_mem_hexDigits {value width : Nat} {c : Char}
    (member : c ∈ hexDigits value width) : isHexDigit c = true := by
  induction width generalizing value with
  | zero => simp [hexDigits] at member
  | succ _ ih =>
    rw [hexDigits, mem_append, mem_singleton] at member
    rcases member with earlier | rfl
    · exact ih earlier
    · exact isHexDigit_digitChar _ (by omega)

end Text

namespace Literal

theorem hexValue_digitChar : ∀ digit < 16, hexValue (Nat.digitChar digit) = digit := by
  decide

theorem hexNumber_hexDigits {value width : Nat} (fits : value < Nat.pow 16 width) :
    hexNumber (hexDigits value width) = value := by
  induction width generalizing value with
  | zero =>
    have zero : value = 0 := Nat.lt_one_iff.mp fits
    rw [zero]
    rfl
  | succ width ih =>
    have front : (hexDigits (value / 16) width).foldl (fun sum c => sum * 16 + hexValue c) 0 =
        value / 16 :=
      ih (Nat.div_lt_of_lt_mul (by rw [Nat.mul_comm]; exact fits))
    have last := hexValue_digitChar (value % 16) (by omega)
    rw [hexNumber, hexDigits, foldl_append, front, foldl_cons, foldl_nil, last]
    omega

theorem isScalar_toNat (c : Char) : isScalar c.toNat = true := by
  have valid : c.toNat < 0xd800 ∨ 0xdfff < c.toNat ∧ c.toNat < 0x110000 := c.valid
  simp only [isScalar, Bool.or_eq_true, Bool.and_eq_true, decide_eq_true_eq]
  omega

theorem hexEscape_hexDigits (letter c : Char) {width : Nat} {valid : Nat → Bool}
    (rest : List Char) (fits : c.toNat < Nat.pow 16 width) (allowed : valid c.toNat) :
    hexEscape letter width valid (hexDigits c.toNat width ++ rest) = ([c], width + 1) := by
  have taken : ((hexDigits c.toNat width ++ rest).takeWhile isHexDigit).take width =
      hexDigits c.toNat width := by
    rw [takeWhile_append_of_pos fun d member => isHexDigit_of_mem_hexDigits member]
    exact take_left' (hexDigits_length _ _)
  have char : charOfCode c.toNat = c := by
    rw [charOfCode, if_pos (isScalar_toNat c), Char.ofNat_toNat]
  simp only [hexEscape, taken, hexNumber_hexDigits fits, hexDigits_length, allowed, char, BEq.rfl,
    Bool.and_self, if_true]

theorem escape_controlLetter {c letter : Char} (found : controlLetter? c = some letter)
    (rest : List Char) : escape (letter :: rest) = ([c], 1) := by
  have char {code : Nat} (same : c.toNat = code) : c = Char.ofNat code := by
    rw [← same, Char.ofNat_toNat]
  unfold controlLetter? at found
  split at found <;> cases found <;> rw [char ‹_›] <;> rfl

section Body

variable {style : Style} (decoded : style.verbatim = false) {printable : Char → Bool}
  (control : ∀ c, printable c = true → ' ' ≤ c)

include decoded

theorem scanBody_escape {c : Char} {rest : List Char} (cs : List Char)
    (escaped : escape (cs ++ rest) = ([c], cs.length)) :
    scanBody style '"' false ('\\' :: cs ++ rest) =
      (scanBody style '"' false rest).skip [c] ('\\' :: cs).length := by
  rw [cons_append, scanBody_escaped (.inl rfl) decoded, escaped, drop_left]
  rfl

theorem scanBody_hex {c letter : Char} {width : Nat} {rest : List Char} (valid : Nat → Bool)
    (read : ∀ after, escape (letter :: after) = hexEscape letter width valid after)
    (fits : c.toNat < Nat.pow 16 width) (allowed : valid c.toNat) :
    scanBody style '"' false ('\\' :: letter :: hexDigits c.toNat width ++ rest) =
      (scanBody style '"' false rest).skip [c] ('\\' :: letter :: hexDigits c.toNat width).length := by
  refine scanBody_escape decoded (letter :: hexDigits c.toNat width) ?_
  rw [cons_append, read, hexEscape_hexDigits letter c rest fits allowed, length_cons, hexDigits_length]

include control

theorem scanBody_escapedChar (c : Char) (rest : List Char) :
    scanBody style '"' false (escapedChar printable '"' c ++ rest) =
      (scanBody style '"' false rest).skip [c] (escapedChar printable '"' c).length := by
  unfold escapedChar
  split
  · rename_i quoted
    simp only [Bool.or_eq_true, beq_iff_eq] at quoted
    refine scanBody_escape decoded [c] ?_
    rcases quoted with rfl | rfl <;> rfl
  · rename_i plain
    simp only [Bool.or_eq_true, beq_iff_eq, not_or] at plain
    split
    · rename_i visible
      have other (d : Char) (low : ¬ ' ' ≤ d) : c ≠ d := by
        rintro rfl
        exact low (control c visible)
      exact scanBody_char (by simp [other endChar (by decide), other '\n' (by decide)])
        (by simp [plain.1]) (by simp [plain.2])
    · split
      · rename_i letter found
        exact scanBody_escape decoded [letter] (escape_controlLetter found rest)
      · have bound : c.toNat < 0x110000 := by
          have valid : c.toNat < 0xd800 ∨ 0xdfff < c.toNat ∧ c.toNat < 0x110000 := c.valid
          omega
        split
        · rename_i low
          simp only [Bool.or_eq_true, decide_eq_true_eq, beq_iff_eq] at low
          exact scanBody_hex decoded (fun _ => true) (fun _ => rfl) (show c.toNat < 0x100 by omega) rfl
        · split
          · exact scanBody_hex decoded (fun _ => true) (fun _ => rfl) (show c.toNat < 0x10000 by omega) rfl
          · exact scanBody_hex decoded isScalar (fun _ => rfl) (show c.toNat < 0x100000000 by omega)
              (isScalar_toNat c)

theorem scanBody_quoted (cs rest : List Char) :
    scanBody style '"' false (cs.flatMap (escapedChar printable '"') ++ '"' :: rest) =
      .closed cs ((cs.flatMap (escapedChar printable '"')).length + 1) := by
  induction cs with
  | nil => exact scanBody_closes (.inl rfl) rfl
  | cons _ _ ih =>
    rw [List.flatMap_cons, List.append_assoc, scanBody_escapedChar decoded control, ih, Body.skip,
      List.length_append, Nat.add_assoc]
    rfl

end Body

theorem escapedChar_head (printable : Char → Bool) (c : Char) :
    ∃ first rest, escapedChar printable '"' c = first :: rest ∧ first ≠ '"' := by
  unfold escapedChar
  split
  · exact ⟨_, _, rfl, by decide⟩
  · rename_i plain
    simp only [Bool.or_eq_true, beq_iff_eq, not_or] at plain
    split
    · exact ⟨_, _, rfl, plain.1⟩
    · split
      · exact ⟨_, _, rfl, by decide⟩
      · split
        · exact ⟨_, _, rfl, by decide⟩
        · split <;> exact ⟨_, _, rfl, by decide⟩

end Literal

end Stubwise
