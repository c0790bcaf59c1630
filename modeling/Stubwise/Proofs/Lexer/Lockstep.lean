import Mathlib.Data.List.Forall2
import Stubwise.Proofs.Lexer.Progress

namespace Stubwise.Lexer

open List

/-- What the scanners have to do for places that are near each other. Of the tokens that are read
something may be asked; all others are made from the places alone. -/
structure Lockstep (near : Cursor → Cursor → Prop) (alike : Token → Token → Prop)
    (fine : Token → Prop) : Prop where
  kind : ∀ {token other}, alike token other → other.kind = token.kind
  here : ∀ {start other}, near start other → ∀ token : Token,
    alike { token with position := start.position } { token with position := other.position }
  line : ∀ {start other}, near start other → ∀ (token : Token) (col : Nat),
    alike { token with position := ⟨start.position.line, col⟩ }
      { token with position := ⟨other.position.line, col⟩ }
  seek : ∀ {start other}, near start other → (seekLine other).1 = (seekLine start).1 ∧
    near (seekLine start).2 (seekLine other).2
  trivia : ∀ {start other}, near start other → ∀ inBrackets,
    near (skipTrivia inBrackets start) (skipTrivia inBrackets other) ∧
      (skipTrivia inBrackets other).current = (skipTrivia inBrackets start).current
  next : ∀ {start other}, near start other → start.current = '\n' → other.current = '\n' →
    near start.next other.next
  read : ∀ {start other}, near start other → other.current = start.current →
    start.atEnd = false → start.current ≠ '\n' → fine (readToken start).1 →
      alike (readToken start).1 (readToken other).1 ∧ near (readToken start).2 (readToken other).2

/-- Two lexers at places that are near each other, with the same layout to settle. -/
structure Alongside (near : Cursor → Cursor → Prop) (alike : Token → Token → Prop)
    (lexer other : Lexer) : Prop where
  cursor : near lexer.cursor other.cursor
  indents : other.indents = lexer.indents
  pending : List.Forall₂ alike lexer.pending other.pending
  depth : other.depth = lexer.depth
  atLineStart : other.atLineStart = lexer.atLineStart
  last : needsNewline other.last = needsNewline lexer.last
  finished : other.finished = lexer.finished

namespace Lockstep

variable {near : Cursor → Cursor → Prop} {alike : Token → Token → Prop} {fine : Token → Prop}
  (lockstep : Lockstep near alike fine) {lexer other : Lexer}
include lockstep

theorem closeBlocks {start first : Cursor} (reached : near start first) (width : Nat) (indents : List Nat) :
    (closeBlocks width ⟨first.position.line, 1⟩ indents).1 =
        (closeBlocks width ⟨start.position.line, 1⟩ indents).1 ∧
      List.Forall₂ alike (closeBlocks width ⟨start.position.line, 1⟩ indents).2
        (closeBlocks width ⟨first.position.line, 1⟩ indents).2 := by
  induction indents with
  | nil => exact ⟨rfl, .nil⟩
  | cons _ _ ih =>
    unfold Lexer.closeBlocks
    split
    · exact ⟨ih.1, .cons (lockstep.line reached { kind := .dedent } 1) ih.2⟩
    · exact ⟨rfl, .nil⟩

theorem indentTokens {start first : Cursor} (reached : near start first) (width : Nat) (indents : List Nat) :
    (indentTokens width first.position.line indents).1 = (indentTokens width start.position.line indents).1 ∧
      List.Forall₂ alike (indentTokens width start.position.line indents).2
        (indentTokens width first.position.line indents).2 := by
  obtain ⟨kept, tokens⟩ := lockstep.closeBlocks reached width indents
  unfold Lexer.indentTokens
  dsimp only
  rw [kept]
  split
  · exact ⟨rfl, .cons (lockstep.line reached { kind := .indent } 1) .nil⟩
  split
  · split
    · exact ⟨rfl, tokens⟩
    · refine ⟨rfl, rel_append tokens (.cons (lockstep.line reached ⟨.illegal, "", _, {}⟩ _) .nil)⟩
  · exact ⟨rfl, .nil⟩

section

variable (along : lexer.Alongside near alike other)
include along

theorem givePending :
    alike lexer.givePending.1 other.givePending.1 ∧
      lexer.givePending.2.Alongside near alike other.givePending.2 := by
  have waiting := along.pending
  unfold Lexer.givePending
  generalize lexer.pending = mine at waiting ⊢
  generalize other.pending = others at waiting ⊢
  cases waiting with
  | nil => exact ⟨lockstep.here along.cursor (endToken .eof {}), along⟩
  | cons first later => exact ⟨first, { along with pending := later }⟩

theorem closingTokens : List.Forall₂ alike lexer.closingTokens other.closingTokens := by
  have made (kind : TokenKind) := lockstep.here along.cursor (endToken kind {})
  unfold Lexer.closingTokens
  rw [along.indents, along.last]
  refine rel_append (rel_append ?_ ?_) (.cons (made .eof) .nil)
  · split
    · exact .cons (made .newline) .nil
    · exact .nil
  · rw [forall₂_map_left_iff, forall₂_map_right_iff]
    exact forall₂_same.mpr fun _ _ => made .dedent

theorem readOn (allowed : fine lexer.readOn.1) :
    alike lexer.readOn.1 other.readOn.1 ∧ lexer.readOn.2.Alongside near alike other.readOn.2 := by
  obtain ⟨reached, current⟩ := lockstep.trivia along.cursor (lexer.depth != 0)
  unfold Lexer.readOn at allowed ⊢
  rw [along.depth]
  generalize skipTrivia (lexer.depth != 0) lexer.cursor = start at reached current allowed ⊢
  generalize skipTrivia (lexer.depth != 0) other.cursor = first at reached current ⊢
  have moved : Alongside near alike { lexer with cursor := start }
      { other with cursor := first, depth := lexer.depth } :=
    { along with cursor := reached, depth := rfl }
  have ends : first.atEnd = start.atEnd := by rw [Cursor.atEnd, Cursor.atEnd, current]
  by_cases atEnd : start.atEnd = true
  · simp only [ends, if_pos atEnd]
    exact lockstep.givePending { moved with
      pending := lockstep.closingTokens moved, indents := rfl, finished := rfl }
  by_cases lineEnd : start.current = '\n'
  · simp only [ends, if_neg atEnd, current, lineEnd, beq_self_eq_true, if_true]
    exact ⟨lockstep.here reached ⟨.newline, "\n", none, {}⟩, { moved with
      cursor := lockstep.next reached lineEnd (current.trans lineEnd), atLineStart := rfl }⟩
  · have inLine : (start.current == '\n') = false := beq_eq_false_iff_ne.mpr lineEnd
    simp only [ends, if_neg atEnd, current, inLine, Bool.false_eq_true, if_false] at allowed ⊢
    obtain ⟨token, behind⟩ := lockstep.read reached current (Bool.not_eq_true _ ▸ atEnd) lineEnd allowed
    refine ⟨token, { moved with cursor := behind, depth := ?_ }⟩
    rw [lockstep.kind token]

/-- One step of two lexers that are alongside each other. -/
theorem scan (allowed : fine lexer.scan.1) :
    alike lexer.scan.1 other.scan.1 ∧ lexer.scan.2.Alongside near alike other.scan.2 := by
  have waiting {mine others : List Token} (same : List.Forall₂ alike mine others) :
      others.isEmpty = mine.isEmpty := by
    cases same <;> rfl
  have sought := lockstep.seek along.cursor
  unfold Lexer.scan at allowed ⊢
  rw [waiting along.pending, along.finished, along.atLineStart, along.depth, along.indents]
  split
  · exact lockstep.givePending along
  rename_i idle
  rw [if_neg idle] at allowed
  split
  · exact ⟨lockstep.here along.cursor (endToken .eof {}), along⟩
  rename_i going
  rw [if_neg going] at allowed
  split
  · rename_i starts
    rw [if_pos starts] at allowed
    generalize seekLine lexer.cursor = line at sought allowed ⊢
    generalize seekLine other.cursor = otherLine at sought ⊢
    obtain ⟨_, cursor⟩ := line
    obtain ⟨width, otherCursor⟩ := otherLine
    obtain ⟨rfl, reached⟩ := sought
    have resumed : Alongside near alike { lexer with cursor, atLineStart := false } { lexer with
          source := other.source, cursor := otherCursor, pending := other.pending,
          last := other.last, atLineStart := false } :=
      ⟨reached, rfl, along.pending, rfl, rfl, along.last, rfl⟩
    cases width with
    | none => exact lockstep.readOn resumed allowed
    | some width =>
      obtain ⟨kept, tokens⟩ := lockstep.indentTokens reached width lexer.indents
      dsimp only at allowed ⊢
      rw [waiting tokens]
      split
      · rename_i none
        rw [if_pos none] at allowed
        exact lockstep.readOn resumed allowed
      · exact lockstep.givePending { resumed with indents := kept, pending := tokens }
  · rename_i inside
    rw [if_neg inside] at allowed
    exact lockstep.readOn along allowed

theorem next_alongside (allowed : fine lexer.next.1) :
    alike lexer.next.1 other.next.1 ∧ lexer.next.2.Alongside near alike other.next.2 := by
  obtain ⟨token, after⟩ := lockstep.scan along allowed
  refine ⟨token, { after with last := ?_ }⟩
  show needsNewline (some other.scan.1.kind) = needsNewline (some lexer.scan.1.kind)
  rw [lockstep.kind token]

end

theorem yields {tokens : List Token} (yields : lexer.Yields tokens)
    (along : lexer.Alongside near alike other) (allowed : ∀ token ∈ tokens, fine token) :
    ∃ others, other.Yields others ∧ List.Forall₂ alike tokens others := by
  induction yields generalizing other with
  | last ended =>
    obtain ⟨token, _⟩ := lockstep.next_alongside along (allowed _ mem_cons_self)
    exact ⟨_, .last (by rw [lockstep.kind token]; exact ended), .cons token .nil⟩
  | more going later ih =>
    obtain ⟨token, after⟩ := lockstep.next_alongside along (allowed _ mem_cons_self)
    obtain ⟨others, rest, same⟩ := ih after (forall_mem_cons.mp allowed).2
    exact ⟨_, .more (by rw [lockstep.kind token]; exact going) rest, .cons token same⟩

end Lockstep

end Stubwise.Lexer
