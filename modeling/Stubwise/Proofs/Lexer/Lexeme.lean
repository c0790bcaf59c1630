import Stubwise.Proofs.Lexer.Reach

/-!
What the readers of single tokens do: each takes a non-empty piece of the text, gives it as the
lexeme, and stamps it with the position where it starts.
-/

namespace Stubwise

open List Cursor Literal

variable {cs : List Char} {kind : TokenKind}

/-- The kinds that stand for the shape of the text instead of a piece of it. -/
def TokenKind.isLayout : TokenKind → Bool
  | .newline | .indent | .dedent => true
  | _ => false

/-- The kinds of tokens that are read from the characters of a line. -/
def TokenKind.isOrdinary (kind : TokenKind) : Bool :=
  !kind.isLayout && kind != .eof

theorem TokenKind.isOrdinary_of_ne (newline : kind ≠ .newline)
    (indent : kind ≠ .indent) (dedent : kind ≠ .dedent) (eof : kind ≠ .eof) :
    kind.isOrdinary = true := by
  cases kind <;> first | rfl | contradiction

namespace Lexer

open Text

structure Shows (start : Cursor) (token : Token) (stop : Cursor) : Prop where
  reached : ∃ text, text ≠ [] ∧ start.Reaches text stop ∧ token.lexeme = String.ofList text
  position : token.position = start.position

structure Takes (start : Cursor) (token : Token) (stop : Cursor) : Prop extends
    Shows start token stop where
  ordinary : token.kind.isOrdinary = true

variable {start stop : Cursor} {token : Token} {c : Char} {rest : List Char}

theorem Shows.shortens (shows : Shows start token stop) : stop.rest.length < start.rest.length := by
  obtain ⟨text, nonempty, reached, _⟩ := shows.reached
  have positive : 0 < text.length := length_pos_iff.mpr nonempty
  have length := reached.length
  omega

theorem Takes.ofReaches {text : List Char} (nonempty : text ≠ [])
    (reached : start.Reaches text stop) (lexeme : token.lexeme = start.textTo stop)
    (position : token.position = start.position) (ordinary : token.kind.isOrdinary) :
    Takes start token stop :=
  ⟨⟨⟨text, nonempty, reached, lexeme.trans reached.textTo⟩, position⟩, ordinary⟩

theorem Style.kind_isOrdinary (style : Literal.Style) : style.kind.isOrdinary = true := by
  unfold Literal.Style.kind
  split
  · rfl
  · split <;> rfl

theorem readString_takes {style : Literal.Style} {cursor : Cursor} {letters : List Char}
    (reached : start.Reaches letters cursor) (shape : cursor.rest = c :: rest) :
    Takes start (readString style start cursor).1 (readString style start cursor).2 := by
  have opened (count length : Nat) : ∃ text, text ≠ [] ∧
      start.Reaches text ((cursor.drop (count + 1)).drop length) := by
    have quote := Cursor.Reaches.drop cursor (count + 1)
    have body := Cursor.Reaches.drop (cursor.drop (count + 1)) length
    refine ⟨_, ?_, reached.trans (quote.trans body)⟩
    simp [shape]
  unfold readString
  generalize cursor.current = quote
  have width : (if cursor.peek 1 == quote && cursor.peek 2 == quote then 3 else 1) =
      (if cursor.peek 1 == quote && cursor.peek 2 == quote then 2 else 0) + 1 := by
    split <;> rfl
  simp only [width]
  split
  · rename_i length _
    obtain ⟨text, nonempty, moved⟩ := opened _ length
    exact .ofReaches nonempty moved rfl rfl rfl
  · rename_i value length _
    obtain ⟨text, nonempty, moved⟩ := opened _ length
    exact .ofReaches nonempty moved rfl rfl (Style.kind_isOrdinary style)

theorem readWord_takes (shape : start.rest = c :: rest) :
    Takes start (readWord start).1 (readWord start).2 := by
  have word := (Cursor.Reaches.next shape).trans (Cursor.Reaches.skipWhile isIdentifierPart start.next)
  have plain (kind : TokenKind) (ordinary : kind.isOrdinary) : Takes start
      { kind, lexeme := start.textTo (start.next.skipWhile isIdentifierPart)
        literal := some (start.textTo (start.next.skipWhile isIdentifierPart))
        position := start.position }
      (start.next.skipWhile isIdentifierPart) :=
    .ofReaches (by simp) word rfl rfl ordinary
  unfold readWord
  dsimp only
  split
  · rename_i quoted
    split
    · obtain ⟨quote, after, opening⟩ : ∃ quote after,
          (start.next.skipWhile isIdentifierPart).rest = quote :: after := by
        cases tail : (start.next.skipWhile isIdentifierPart).rest with
        | nil => simp [Cursor.current, tail, endChar] at quoted
        | cons quote after => exact ⟨quote, after, rfl⟩
      exact readString_takes word opening
    · exact plain _ (by split <;> rfl)
  · exact plain _ (by split <;> rfl)

/-- How many characters an outcome of reading a number stands for. -/
def Number.length : Literal.Number → Nat
  | .number _ length | .badInteger length | .badNumber length => length

/-- A number starts with a digit, or with a point in front of one. -/
def startsNumber (cs : List Char) : Bool :=
  match cs with
  | [] => false
  | c :: rest => isDigit c || (c == '.' && isDigit (rest.headD endChar))

theorem scanDecimal_length (cs : List Char) :
    digitRun cs + fractionLength (cs.drop (digitRun cs)) ≤ Number.length (scanDecimal cs) := by
  unfold scanDecimal
  simp only [Number.length]
  grind

theorem scanDecimal_length_pos (starts : startsNumber cs) : 0 < Number.length (scanDecimal cs) := by
  refine Nat.lt_of_lt_of_le ?_ (scanDecimal_length cs)
  cases cs with
  | nil => cases starts
  | cons c rest =>
    simp only [startsNumber, Bool.or_eq_true, Bool.and_eq_true, beq_iff_eq] at starts
    rcases starts with digit | ⟨point, digit⟩
    · have some : 0 < digitRun (c :: rest) := by simp [digitRun, digit]
      omega
    · subst point
      have noDigit : digitRun ('.' :: rest) = 0 := by
        simp [digitRun, isDigit]
      have single : rest.headD endChar ≠ '.' := by
        intro dots
        rw [dots] at digit
        simp [isDigit] at digit
      have pointed : hasPoint ('.' :: rest) = true := by
        simpa [hasPoint] using single
      rw [noDigit, drop_zero, fractionLength, if_pos pointed]
      omega

theorem scanNumber_length_pos (starts : startsNumber cs) : 0 < Number.length (scanNumber cs) := by
  unfold scanNumber
  split
  · split
    · dsimp only
      split <;> simp [Number.length]
    · exact scanDecimal_length_pos starts
  · exact scanDecimal_length_pos starts

theorem scanDecimal_kind {length : Nat}
    (found : scanDecimal cs = .number kind length) : kind.isOrdinary = true := by
  have known : kind = .int ∨ kind = .float ∨ kind = .imag := by
    unfold scanDecimal at found
    grind
  rcases known with rfl | rfl | rfl <;> rfl

theorem scanNumber_kind {length : Nat}
    (found : scanNumber cs = .number kind length) : kind.isOrdinary = true := by
  unfold scanNumber at found
  split at found
  · split at found
    · dsimp only at found
      split at found <;> cases found
      rfl
    · exact scanDecimal_kind found
  · exact scanDecimal_kind found

theorem readNumber_takes (starts : startsNumber start.rest) :
    Takes start (readNumber start).1 (readNumber start).2 := by
  have moved (length : Nat) := Cursor.Reaches.drop start length
  have positive := scanNumber_length_pos starts
  have taken {length : Nat} (some : 0 < length) : start.rest.take length ≠ [] := by
    cases shape : start.rest with
    | nil => simp [shape, startsNumber] at starts
    | cons =>
      cases length with
      | zero => cases some
      | succ => simp
  unfold readNumber
  split <;> rename_i found <;> rw [found] at positive
  · exact .ofReaches (taken positive) (moved _) rfl rfl (scanNumber_kind found)
  · exact .ofReaches (taken positive) (moved _) rfl rfl rfl
  · exact .ofReaches (taken positive) (moved _) rfl rfl rfl

theorem operators_nonempty : ∀ operator ∈ operators,
    operator.1.toList ≠ [] ∧ operator.2.isOrdinary = true := by
  decide

theorem readOperator_takes (shape : start.rest = c :: rest) :
    Takes start (readOperator start).1 (readOperator start).2 := by
  unfold readOperator
  split
  · rename_i text kind found
    obtain ⟨nonempty, ordinary⟩ := operators_nonempty _ (mem_of_find?_eq_some found)
    have accepted := find?_some found
    have matched : text.toList <+: start.rest := isPrefixOf_iff_prefix.mp accepted
    have moved := Cursor.Reaches.drop start text.length
    have piece : start.rest.take text.length = text.toList := by
      exact (prefix_iff_eq_take.mp matched).symm
    rw [piece] at moved
    exact ⟨⟨⟨text.toList, nonempty, moved, by simp⟩, rfl⟩, ordinary⟩
  · have moved := Cursor.Reaches.next shape
    refine ⟨⟨⟨[c], by simp, moved, ?_⟩, rfl⟩, rfl⟩
    rw [illegal, current_of_rest shape]
    exact String.singleton_eq_ofList

theorem readToken_takes (shape : start.rest = c :: rest) :
    Takes start (readToken start).1 (readToken start).2 := by
  have current := current_of_rest shape
  unfold readToken
  dsimp only
  split
  · exact readWord_takes shape
  · split
    · rename_i number
      refine readNumber_takes ?_
      rw [current] at number
      have peeked : start.peek 1 = rest.headD endChar := by
        cases rest <;> simp [peek, shape]
      simpa only [shape, startsNumber, peeked] using number
    · split
      · exact readString_takes (.refl start) shape
      · exact readOperator_takes shape

end Lexer

end Stubwise
