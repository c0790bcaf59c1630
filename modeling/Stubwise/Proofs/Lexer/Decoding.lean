import Mathlib.Data.List.TakeWhile
import Stubwise.Proofs.Lexer.Lexeme
import Stubwise.Proofs.Lexer.Literal

/-!
What the value of a string literal is, read off its text: well-formed escapes stand for their
characters, and everything else for itself.
-/

namespace Stubwise

open List Text

namespace Literal

def simpleEscape? : Char → Option (List Char)
  | 'n' => some ['\n'] | 't' => some ['\t'] | 'r' => some ['\r'] | '0' => some [Char.ofNat 0]
  | 'a' => some [Char.ofNat 7] | 'b' => some [Char.ofNat 8] | 'f' => some [Char.ofNat 12]
  | 'v' => some [Char.ofNat 11] | '\\' => some ['\\'] | '\'' => some ['\''] | '"' => some ['"']
  | '\n' => some []
  | _ => none

/-- How many digits an escape by this letter needs. -/
def hexWidth : Char → Nat
  | 'x' => 2
  | 'u' => 4
  | 'U' => 8
  | _ => 0

/-- What a backslash in front of the text stands for, and how much of the text belongs to it. A
malformed escape stands for itself, with all its digits. -/
def meaning : List Char → List Char × Nat
  | [] => (['\\'], 0)
  | c :: rest =>
    match simpleEscape? c with
    | some value => (value, 1)
    | none =>
      let digits := (rest.takeWhile isHexDigit).take (hexWidth c)
      if digits ≠ [] ∧ digits.length = hexWidth c ∧ isScalar (hexNumber digits) then
        ([Char.ofNat (hexNumber digits)], digits.length + 1)
      else ('\\' :: c :: digits, digits.length + 1)

/-- The body of a literal with its well-formed escapes replaced, and everything else kept. -/
def decode : List Char → List Char
  | [] => []
  | c :: rest =>
    if c = '\\' then (meaning rest).1 ++ decode (rest.drop (meaning rest).2) else c :: decode rest
termination_by cs => cs.length
decreasing_by all_goals simp only [length_cons, length_drop]; omega

/-- Whether no malformed escape in the body of a literal has digits: just those stand for more than
two characters. -/
def intact : List Char → Bool
  | [] => true
  | c :: rest =>
    if c = '\\' then (meaning rest).1.length ≤ 2 && intact (rest.drop (meaning rest).2) else intact rest
termination_by cs => cs.length
decreasing_by all_goals simp only [length_cons, length_drop]; omega

variable {c quote : Char} {rest value body : List Char}

theorem hexEscape_meaning (simple : simpleEscape? c = none) (valid : Nat → Bool)
    (allows : ∀ code, isScalar code = true → valid code = true) (some : 0 < hexWidth c)
    (rest : List Char) : (hexEscape c (hexWidth c) valid rest).2 = (meaning (c :: rest)).2 ∧
      if (meaning (c :: rest)).1.length ≤ 2 then
        (hexEscape c (hexWidth c) valid rest).1 = (meaning (c :: rest)).1
      else (hexEscape c (hexWidth c) valid rest).1.length < (meaning (c :: rest)).1.length := by
  simp only [hexEscape, meaning, simple]
  generalize (rest.takeWhile isHexDigit).take (hexWidth c) = digits
  by_cases whole : digits.length = hexWidth c
  · have nonempty : digits ≠ [] := fun empty => by simp [empty] at whole; omega
    by_cases scalar : isScalar (hexNumber digits) = true
    · simp [whole, nonempty, scalar, allows _ scalar, charOfCode]
    · grind
  · simp [whole]
    grind

theorem escape_meaning (inText : c ≠ endChar) (rest : List Char) :
    (escape (c :: rest)).2 = (meaning (c :: rest)).2 ∧
      if (meaning (c :: rest)).1.length ≤ 2 then (escape (c :: rest)).1 = (meaning (c :: rest)).1
      else (escape (c :: rest)).1.length < (meaning (c :: rest)).1.length := by
  cases simple : simpleEscape? c with
  | some value =>
    have found : value.length ≤ 2 ∧ escape (c :: rest) = (value, 1) := by
      unfold simpleEscape? at simple
      split at simple <;> cases simple <;> exact ⟨by decide, rfl⟩
    have same : meaning (c :: rest) = (value, 1) := by rw [meaning, simple]
    rw [same, found.2, if_pos found.1]
    exact ⟨rfl, rfl⟩
  | none =>
    by_cases hex : c = 'x' ∨ c = 'u' ∨ c = 'U'
    · rcases hex with rfl | rfl | rfl
      · exact hexEscape_meaning simple _ (fun _ _ => rfl) (by decide) rest
      · exact hexEscape_meaning simple _ (fun _ _ => rfl) (by decide) rest
      · exact hexEscape_meaning simple _ (fun _ => id) (by decide) rest
    · have kept : escape (c :: rest) = (['\\', c], 1) ∧ hexWidth c = 0 := by
        unfold simpleEscape? at simple
        unfold hexWidth
        split at simple <;> simp_all [escape]
      simp [kept, meaning, simple]

theorem meaning_append (other : isHexDigit quote = false) (nonempty : body ≠ []) (more : List Char) :
    meaning (body ++ quote :: more) = meaning body := by
  cases body with
  | nil => exact absurd rfl nonempty
  | cons c body =>
    have same : (body ++ quote :: more).takeWhile isHexDigit = body.takeWhile isHexDigit := by
      rw [takeWhile_append, takeWhile_cons, other]
      split
      next all => simp [(List.takeWhile_prefix isHexDigit).eq_of_length all]
      next => rfl
    rw [cons_append, meaning, meaning, same]

/-- A value that is the decoded body, or is shorter since digits of a malformed escape are lost. -/
def Decodes (body value : List Char) : Prop :=
  if intact body then value = decode body else value.length < (decode body).length

theorem Decodes.eq_iff (decodes : Decodes body value) : value = decode body ↔ intact body = true := by
  unfold Decodes at decodes
  split at decodes
  next whole => exact iff_of_true decodes whole
  next broken => exact iff_of_false (fun same => Nat.ne_of_lt decodes (congrArg List.length same)) broken

theorem Decodes.char (decodes : Decodes body value) (plain : c ≠ '\\') :
    Decodes (c :: body) (c :: value) := by
  simp only [Decodes, decode, intact, if_neg plain] at decodes ⊢
  split at decodes
  next => rw [if_pos ‹_›, decodes]
  next => rw [if_neg ‹_›]; exact Nat.succ_lt_succ decodes

theorem Decodes.escape (inText : c ≠ endChar) (other : isHexDigit quote = false) {more : List Char}
    (decodes : Decodes body value)
    (shape : (c :: rest).drop (escape (c :: rest)).2 = body ++ quote :: more) :
    Decodes ('\\' :: ((c :: rest).take (escape (c :: rest)).2 ++ body))
      ((escape (c :: rest)).1 ++ value) := by
  obtain ⟨taken, added⟩ := escape_meaning inText rest
  rw [taken] at shape ⊢
  generalize escaped : (c :: rest).take (meaning (c :: rest)).2 = front
  have whole : c :: rest = front ++ body ++ quote :: more := by
    rw [append_assoc, ← shape, ← escaped, take_append_drop]
  have width : front.length = (meaning (c :: rest)).2 := by
    have length := congrArg List.length shape
    rw [← escaped, length_take]
    simp only [length_drop, length_append, length_cons] at length ⊢
    omega
  have nonempty : front ++ body ≠ [] := by
    intro empty
    have positive : 0 < (meaning (c :: rest)).2 := by
      rw [meaning]
      split
      · exact Nat.one_pos
      · dsimp only
        split <;> omega
    rw [← width, (append_eq_nil_iff.mp empty).1] at positive
    cases positive
  have same : meaning (front ++ body) = meaning (c :: rest) := by
    rw [whole, meaning_append other nonempty]
  simp only [Decodes, decode, intact, if_true, same, drop_left' width, Bool.and_eq_true,
    decide_eq_true_eq, length_append] at decodes ⊢
  grind

theorem Body.skip_closed {scanned : Body} {added : List Char} {count length : Nat}
    (closed : scanned.skip added count = .closed value length) : ∃ tail taken,
    scanned = .closed tail taken ∧ value = added ++ tail ∧ length = count + taken := by
  cases scanned with
  | closed tail taken =>
    cases closed
    exact ⟨tail, taken, rfl, rfl, rfl⟩
  | unterminated => cases closed

/-- The quotes on each side of a body. -/
def marks (quote : Char) (triple : Bool) : List Char :=
  quote :: if triple then [quote, quote] else []

/-- A closed body is followed by its quotes, and decoded. -/
theorem scanBody_closed {style : Style} {triple : Bool} {cs : List Char} {length : Nat}
    (decoded : style.verbatim = false) (other : isHexDigit quote = false)
    (scanned : scanBody style quote triple cs = .closed value length) :
    ∃ body, cs = body ++ (marks quote triple ++ cs.drop length) ∧ Decodes body value := by
  fun_induction scanBody style quote triple cs generalizing value length with
  | case1 | case2 | case4 | case5 => cases scanned
  | case3 _ _ _ closes =>
    cases scanned
    rw [Bool.and_eq_true, beq_iff_eq] at closes
    obtain ⟨rfl, most⟩ := closes
    refine ⟨[], ?_, by simp [Decodes, intact, decode]⟩
    cases triple with
    | false => rfl
    | true =>
      obtain ⟨more, rfl⟩ := isPrefixOf_iff_prefix.mp most
      rfl
  | case6 _ _ _ verbatim =>
    rw [decoded] at verbatim
    cases verbatim
  | case7 _ rest _ _ backslash _ added taken read ih =>
    obtain ⟨tail, behind, closed, rfl, rfl⟩ := Body.skip_closed scanned
    obtain ⟨body, shape, decodes⟩ := ih closed
    rw [eq_of_beq backslash]
    cases rest with
    | nil =>
      rw [drop_nil, scanBody] at closed
      cases closed
    | cons d after =>
      have inText : d ≠ endChar := by
        rintro rfl
        cases read
        rw [drop_zero, scanBody_stops rfl] at closed
        cases closed
      obtain rfl : (escape (d :: after)).1 = added := by rw [read]
      obtain rfl : (escape (d :: after)).2 = taken := by rw [read]
      refine ⟨_, ?_, decodes.escape inText other shape⟩
      rw [drop_drop] at shape
      rw [Nat.add_right_comm, drop_succ_cons, cons_append, append_assoc, ← shape, take_append_drop]
  | case8 c _ _ _ plain ih =>
    obtain ⟨tail, behind, closed, rfl, rfl⟩ := Body.skip_closed scanned
    obtain ⟨body, shape, decodes⟩ := ih closed
    refine ⟨c :: body, ?_, decodes.char fun same => plain (beq_iff_eq.mpr same)⟩
    rw [Nat.add_comm, drop_succ_cons, cons_append, ← shape]

end Literal

namespace Lexer

open Literal Cursor

/-- Where a literal that is not raw or formatted ends, its value is its body, decoded, just if no
malformed escape in the body has digits: those are lost. -/
theorem readString_decoded_iff (style : Style) (start cursor : Cursor)
    (decoded : style.verbatim = false) (isQuote : cursor.current = '"' ∨ cursor.current = '\'')
    (terminated : (readString style start cursor).1.kind = style.kind) :
    ∃ triple body, triple = (marks cursor.current true).isPrefixOf cursor.rest ∧
      cursor.rest = marks cursor.current triple ++ (body ++ (marks cursor.current triple ++
        (readString style start cursor).2.rest)) ∧
      ((readString style start cursor).1.literal = some (String.ofList (decode body)) ↔
        intact body = true) := by
  have inText : cursor.current ≠ endChar ∧ isHexDigit cursor.current = false := by
    rcases isQuote with quote | quote <;> rw [quote] <;> decide
  obtain ⟨after, shape⟩ : ∃ after, cursor.rest = cursor.current :: after := by
    cases rest : cursor.rest with
    | nil => exact absurd (by rw [Cursor.current, rest]; rfl) inText.1
    | cons _ after => exact ⟨after, by rw [Cursor.current_of_rest rest]⟩
  have opens : (marks cursor.current true).isPrefixOf cursor.rest =
      [cursor.current, cursor.current].isPrefixOf after := by
    rw [shape, marks]
    simp
  have opening : cursor.rest =
      marks cursor.current ([cursor.current, cursor.current].isPrefixOf after) ++
        cursor.rest.drop (if [cursor.current, cursor.current].isPrefixOf after then 3 else 1) := by
    cases triple : [cursor.current, cursor.current].isPrefixOf after with
    | false => rw [shape]; rfl
    | true =>
      obtain ⟨rest, rfl⟩ := isPrefixOf_iff_prefix.mp triple
      rw [shape]
      rfl
  rw [opens]
  unfold readString at terminated ⊢
  simp only [peek_quotes inText.1 shape] at terminated ⊢
  generalize [cursor.current, cursor.current].isPrefixOf after = triple at terminated opening ⊢
  rw [drop_rest] at terminated ⊢
  cases scanned : scanBody style cursor.current triple (cursor.rest.drop (if triple then 3 else 1)) with
  | unterminated =>
    rw [scanned] at terminated
    have ordinary : style.kind ≠ .illegal := by
      unfold Style.kind
      split_ifs <;> decide
    exact absurd terminated.symm ordinary
  | closed =>
    obtain ⟨body, split, decodes⟩ := scanBody_closed decoded inText.2 scanned
    refine ⟨triple, body, rfl, ?_, ?_⟩
    · simp only [drop_rest]
      rw [← split]
      exact opening
    · simp only [Option.some_inj, String.ofList_inj]
      exact decodes.eq_iff

theorem readString_decoded_iff_escapes : let cursor : Cursor := { rest := "\"\\x41\\q\"".toList }
    (readString {} cursor cursor).1.kind = .string ∧ ∃ triple body,
      triple = (marks cursor.current true).isPrefixOf cursor.rest ∧
      cursor.rest = marks cursor.current triple ++
        (body ++ (marks cursor.current triple ++ (readString {} cursor cursor).2.rest)) ∧
      ((readString {} cursor cursor).1.literal = some (String.ofList (decode body)) ↔
        intact body = true) := by
  intro cursor
  have terminated : (readString {} cursor cursor).1.kind = .string := by decide +kernel
  exact ⟨terminated, readString_decoded_iff {} cursor cursor rfl (.inl rfl) terminated⟩

/-- The digit of an escape that lacks another one is lost. -/
theorem readString_loses_digit :
    (readString {} { rest := "'\\x4'".toList } { rest := "'\\x4'".toList }).1.literal = some "\\x" ∧
      decode "\\x4".toList = "\\x4".toList ∧ intact "\\x4".toList = false := by
  decide +kernel

end Lexer

end Stubwise
