import Stubwise.Proofs.Lexer.Resume
import Stubwise.Proofs.Lexer.Shift

namespace Stubwise.Lexer

open List Cursor Lexer Text

open Movable (move)

variable {c : Char} {cursor : Cursor} {text : List Char} {indents : List Nat} {tokens : List Token}
  {bound : Nat} {source : String}

/-- A line that starts with this character has a token in its first column. -/
def startsLine (c : Char) : Bool :=
  !(isIndentBlank c || c == '#' || c == '\r' || c == '\n' || c == endChar)

section FirstColumn

variable {c : Char} {text : List Char} {cursor : Cursor}

theorem seekLine_of_startsLine (starts : startsLine c) (shape : cursor.rest = c :: text) :
    seekLine cursor = (some 0, cursor) := by
  simp only [startsLine, Bool.not_eq_true', Bool.or_eq_false_iff] at starts
  obtain ⟨⟨⟨⟨blank, comment⟩, carriage⟩, lineEnd⟩, ended⟩ := starts
  have blanks : cursor.rest.takeWhile isIndentBlank = [] := by
    rw [shape, takeWhile_cons, blank]
    rfl
  have start : cursor.skipWhile isIndentBlank = cursor := by
    rw [skipWhile, blanks]
    rfl
  rw [seekLine_eq, start, shape]
  simp only [comment, carriage, lineEnd, ended, blank, takeWhile_cons]
  rfl

theorem lineWidth_of_startsLine (starts : startsLine c) :
    lineWidth? ((c :: text).takeWhile (· != '\n')) = some 0 := by
  simp only [startsLine, isIndentBlank, Bool.not_eq_true', Bool.or_eq_false_iff] at starts
  obtain ⟨⟨⟨⟨⟨⟨space, tab⟩, feed⟩, comment⟩, carriage⟩, lineEnd⟩, ended⟩ := starts
  simp [lineWidth?, lineWidth?.go, space, tab, feed, comment, carriage, lineEnd, bne]

end FirstColumn

section LineStart

variable {lexer : Lexer}

theorem scan_atLineStart {width : Nat} (spent : lexer.pending = [])
    (going : lexer.finished = false) (atStart : lexer.atLineStart) (outside : lexer.depth = 0)
    (found : seekLine lexer.cursor = (some width, cursor)) :
    lexer.scan =
      let (indents, tokens) := indentTokens width cursor.position.line lexer.indents
      if tokens.isEmpty then readOn { lexer with cursor, atLineStart := false }
      else givePending { lexer with cursor, atLineStart := false, indents, pending := tokens } := by
  simp [scan, spent, going, atStart, outside, found]

theorem beq_of_isLetter (letter : isLetter c) (d : Char) (none : isLetter d = false := by decide) :
    (c == d) = false := by
  cases same : c == d with
  | false => rfl
  | true =>
    rw [eq_of_beq same, none] at letter
    cases letter

theorem startsLine_of_isLetter (letter : isLetter c) : startsLine c = true := by
  have other (d : Char) (none : isLetter d = false := by decide) := beq_of_isLetter letter d none
  simp only [startsLine, isIndentBlank, other ' ', other '\t', other (Char.ofNat 12), other '#',
    other '\r', other '\n', other endChar]
  rfl

theorem skipTrivia_of_letter {inBrackets : Bool} (shape : cursor.rest = c :: text) (letter : isLetter c) :
    skipTrivia inBrackets cursor = cursor := by
  have other (d : Char) (none : isLetter d = false := by decide) := beq_of_isLetter letter d none
  have join : joinLength (c :: text) = 0 := by
    have backslash := other '\\'
    unfold joinLength
    split <;> rename_i same
    · rw [(cons.inj same).1] at backslash
      cases backslash
    · rw [(cons.inj same).1] at backslash
      cases backslash
    · rfl
  rw [skipTrivia_eq, shape]
  simp only [isBlank, other ' ', other '\t', other '\r', other (Char.ofNat 12), other '\n', other '#', join]
  cases inBrackets <;> rfl

theorem position_of_letter (shape : source.toList = c :: text) (letter : isLetter c) :
    (ofText source).next.1.position = ⟨1, 1⟩ := by
  let lexer : Lexer := { ofText source with atLineStart := false }
  have found : seekLine (ofText source).cursor = (some 0, (ofText source).cursor) :=
    seekLine_of_startsLine (startsLine_of_isLetter letter) shape
  have settled : (ofText source).scan = readOn lexer := scan_atLineStart rfl rfl rfl rfl found
  have here : skipTrivia (lexer.depth != 0) lexer.cursor = lexer.cursor := skipTrivia_of_letter shape letter
  have current : lexer.cursor.current = c := current_of_rest shape
  have inText : lexer.cursor.atEnd = false := by
    rw [atEnd, current]
    exact beq_of_isLetter letter _
  have inLine : (lexer.cursor.current == '\n') = false := by
    rw [current]
    exact beq_of_isLetter letter _
  have token : (readOn lexer).1 = (readToken lexer.cursor).1 := by
    simp only [readOn, here, inText, inLine, Bool.false_eq_true, if_false]
  show (ofText source).scan.1.position = _
  rw [settled, token, (readToken_takes shape).position]
  rfl

end LineStart

section FirstLine

variable {line rest : List Char} {lexer after : Lexer} {token : Token}

/-- The lexer is in the first line of its text: nothing but the tokens of that line is due. -/
structure InFirstLine (source : List Char) (lexer : Lexer) : Prop where
  sound : lexer.Sound source
  spent : lexer.pending = []
  going : lexer.finished = false
  indents : lexer.indents = []
  layout : lexer.layoutTokens = ([], [])

theorem inFirstLine_ofText (starts : startsLine c) (shape : source.toList = c :: text) :
    (ofText source).InFirstLine source.toList where
  sound := sound_ofText source
  spent := rfl
  going := rfl
  indents := rfl
  layout := by
    have found : seekLine (ofText source).cursor = (some 0, (ofText source).cursor) :=
      seekLine_of_startsLine starts shape
    have atStart : ((ofText source).atLineStart && (ofText source).depth == 0) = true := rfl
    rw [layoutTokens, atStart, if_pos rfl, found]
    rfl

theorem eq_of_lineEnd {before : List Char} (split : line ++ '\n' :: rest = before ++ '\n' :: text)
    (single : '\n' ∉ line) (none : '\n' ∉ before) : before = line ∧ text = rest := by
  rcases append_eq_append_iff.mp split with ⟨more, rfl, behind⟩ | ⟨more, rfl, behind⟩ <;>
    cases more <;> simp_all

theorem Step.inFirstLine (inside : lexer.InFirstLine (line ++ '\n' :: rest))
    (single : '\n' ∉ line) (step : Step lexer token after) :
    token.kind = .eof ∨
    (token.kind = .newline ∧ (token.lexeme = "\n" → token.position.line = 1 →
      (ofChars rest).Beside 1 (line.length + 1) { after with last := some token.kind })) ∨
    (token.kind ≠ .newline ∧ InFirstLine (line ++ '\n' :: rest) { after with last := some token.kind }) := by
  have sound := step.sound inside.sound
  have notAtStart := inside.sound.consistent.settle_atLineStart
  cases step with
  | given ready =>
    rw [inside.spent] at ready
    cases ready
  | ended _ finished =>
    rw [inside.going] at finished
    cases finished
  | laidOut _ _ layout =>
    rw [inside.layout] at layout
    cases layout
  | closed _ _ _ _ _ closing =>
    rcases closingTokens_cons closing with ⟨rfl, _⟩ | ⟨count, some, _⟩ | ⟨_, rfl, _⟩
    · exact .inr (.inl ⟨rfl, fun written => absurd (show "" = "\n" from written) (by decide)⟩)
    · rw [show lexer.settle.indents = [] from inside.indents] at some
      cases some
    · exact .inl rfl
  | lineEnd spent going layout reached inText atLineEnd =>
    rename_i start
    refine .inr (.inl ⟨rfl, fun _ first => ?_⟩)
    obtain ⟨gap, passed⟩ := start_passes reached
    obtain ⟨c, text, shape, current⟩ := exists_rest_of_not_atEnd inText
    obtain rfl : c = '\n' := (current_of_rest shape).symm.trans atLineEnd
    rw [← reached] at atLineEnd
    rcases passed.reached.placed inside.sound.placed with ended | ⟨before, split, offset, position⟩
    · rw [ended] at shape
      cases shape
    · rw [shape] at split
      have first : start.position.line = 1 := first
      have none : '\n' ∉ before := by
        rw [position] at first
        simpa [positionAfter, count_eq_zero] using first
      obtain ⟨rfl, rfl⟩ := eq_of_lineEnd split single none
      have column : start.next = { rest := text, offset := before.length + 1, position := ⟨2, 1⟩ } := by
        simp [Cursor.next, shape, Cursor.after, offset, first]
      exact ⟨column.trans (by simp [ofChars, lowered]), inside.indents,
        forall₂_nil_left_iff.mpr inside.spent, depth_of_lineEnd atLineEnd, rfl, rfl, inside.going⟩
  | read spent going _ _ inText =>
    refine .inr (.inr ⟨ne_of_isOrdinary (readToken_ordinary inText) rfl, sound, inside.spent,
      inside.going, inside.indents, ?_⟩)
    have indents : lexer.settle.indents = [] := inside.indents
    simp only [layoutTokens, notAtStart, Bool.false_and, indents]
    rfl

theorem Yields.behindFirstLine {front ending : List Token} {newline : Token}
    (yields : lexer.Yields tokens) (inside : lexer.InFirstLine (line ++ '\n' :: rest))
    (single : '\n' ∉ line) (split : tokens = front ++ newline :: ending)
    (earlier : ∀ token ∈ front, token.kind ≠ .newline) (kind : newline.kind = .newline)
    (written : newline.lexeme = "\n") (first : newline.position.line = 1) :
    ∃ after, after.Yields ending ∧ (ofChars rest).Beside 1 (line.length + 1) after := by
  induction yields generalizing front with
  | last ended =>
    cases front with
    | nil =>
      obtain ⟨rfl, _⟩ := cons.inj split
      rw [ended] at kind
      cases kind
    | cons => simp at split
  | more going later ih =>
    rename_i lexer tokens
    obtain ⟨scanned, step, result⟩ := next_step lexer
    rw [result] at later ih
    rcases step.inFirstLine inside single with
      ended | ⟨lineEnd, beside⟩ | ⟨inLine, still⟩
    · exact absurd ended going
    · cases front with
      | nil =>
        obtain ⟨rfl, rfl⟩ := cons.inj split
        exact ⟨_, later, beside written first⟩
      | cons =>
        obtain ⟨rfl, _⟩ := cons.inj split
        exact absurd lineEnd (earlier _ (mem_cons_self ..))
    · cases front with
      | nil =>
        obtain ⟨rfl, _⟩ := cons.inj split
        exact absurd kind inLine
      | cons =>
        obtain ⟨_, behind⟩ := cons.inj split
        exact ih still behind (forall_mem_cons.mp earlier).2

end FirstLine

section Resumed

variable {line rest : List Char} {lexer : Lexer} {c d : Char} {text more : List Char}

omit lexer c d text more in
theorem afterLine_append (single : '\n' ∉ line) : afterLine (line ++ '\n' :: rest) = some rest := by
  induction line with
  | nil => rfl
  | cons _ _ ih =>
    rw [mem_cons, not_or] at single
    rw [cons_append, afterLine, if_neg (by simpa using Ne.symm single.1)]
    exact ih single.2

theorem resumePoint_nextLine (single : '\n' ∉ line) (shape : line = c :: text)
    (starts : startsLine c) (next : rest = d :: more) (flush : startsLine d) :
    resumePoint? 1 1 none (line ++ '\n' :: rest) = some (2, rest) := by
  have width : lineWidth? ((line ++ '\n' :: rest).takeWhile (· != '\n')) = some 0 := by
    rw [shape]
    exact lineWidth_of_startsLine starts
  have widthNext : lineWidth? (rest.takeWhile (· != '\n')) = some 0 := by
    rw [next]
    exact lineWidth_of_startsLine flush
  have later : resumePoint? 1 2 (some 0) rest = some (2, rest) := by
    rw [resumePoint?_eq]
    simp [widthNext]
  rw [resumePoint?_eq, afterLine_append single]
  simp [width, later]

omit line rest c d text more in
theorem Yields.ofNext {after : Lexer} {token : Token}
    (given : lexer.next = (token, after)) (going : token.kind ≠ .eof) (later : after.Yields tokens) :
    lexer.Yields (token :: tokens) := by
  obtain ⟨rfl, rfl⟩ := Prod.mk.inj given.symm
  exact .more going later

omit line c text in
theorem next_ofChars (next : rest = d :: more) (flush : startsLine d) :
    Lexer.next { ofChars rest with atLineStart := false } = (ofChars rest).next := by
  have found : seekLine (ofChars rest).cursor = (some 0, (ofChars rest).cursor) :=
    seekLine_of_startsLine flush next
  rw [Lexer.next, Lexer.next, scan_atLineStart rfl rfl rfl rfl found]
  rfl

omit line rest lexer c d text more in
theorem closeBlocks_stacked (stacked : Stacked bound indents)
    (position : Position) : closeBlocks 0 position indents =
      ([], replicate indents.length (layout .dedent position)) := by
  induction indents generalizing bound with
  | nil => rfl
  | cons _ _ ih =>
    rw [closeBlocks, if_pos stacked.1, ih stacked.2.2]
    rfl

omit line rest lexer c d text more in
theorem indentTokens_stacked (stacked : Stacked bound indents)
    (line : Nat) : indentTokens 0 line indents =
      ([], replicate indents.length (layout .dedent ⟨line, 1⟩)) := by
  cases indents with
  | nil => rfl
  | cons width =>
    have wide : 0 < width := stacked.1
    simp only [indentTokens, closeBlocks_stacked stacked, headD_cons, Nat.not_lt_zero, wide,
      if_true, if_false]
    rfl

omit line rest c d text more in
theorem Yields.pending {waiting : List Token} (dedents : ∀ token ∈ waiting, token.kind = .dedent)
    (yields : Lexer.Yields { lexer with pending := [], last := some .dedent } tokens) :
    Lexer.Yields { lexer with pending := waiting, last := some .dedent } (waiting ++ tokens) := by
  induction waiting with
  | nil => exact yields
  | cons token waiting ih =>
    have kind : token.kind = .dedent := dedents token (mem_cons_self ..)
    have given : next { lexer with pending := token :: waiting, last := some .dedent } =
        (token, { lexer with pending := waiting, last := some .dedent }) := by
      rw [← kind]
      rfl
    exact .ofNext given (by rw [kind]; exact TokenKind.noConfusion)
      (ih fun other member => dedents other (mem_cons_of_mem token member))

theorem resumed_yields (sound : lexer.Sound (line ++ '\n' :: rest)) (single : '\n' ∉ line)
    (shape : line = c :: text) (starts : startsLine c) (next : rest = d :: more)
    (flush : startsLine d) (yields : (ofChars rest).Yields tokens) (skip : Nat) :
    ∃ dedents, (∀ token ∈ dedents, token.kind = .dedent) ∧
      dedents.length ≤ 8 * (line ++ '\n' :: rest).length ∧
      (lexer.resumeAfter 1).Yields (dedents ++ tokens.map (move (.lower 1 skip))) := by
  have cursor : (lexer.resumeAfter 1).cursor = { rest, offset := line.length + 1, position := ⟨2, 1⟩ } := by
    have length : (line ++ '\n' :: rest).length - rest.length = line.length + 1 := by
      rw [length_append, length_cons]
      omega
    simp only [resumeAfter, sound.text, resumePoint_nextLine single shape starts next flush, length]
  have place : (lexer.resumeAfter 1).cursor = (ofChars rest).cursor.lowered 1 (line.length + 1) := by
    rw [cursor]
    simp [ofChars, lowered]
  have stacked := sound.blocks
  cases blocks : lexer.indents with
  | nil =>
    have beside : (ofChars rest).Beside 1 (line.length + 1) (lexer.resumeAfter 1) :=
      ⟨place, blocks, .nil, rfl, rfl, rfl, rfl⟩
    exact ⟨[], by simp, Nat.zero_le _, yields.beside skip beside⟩
  | cons width outer =>
    have found : seekLine (lexer.resumeAfter 1).cursor = (some 0, (lexer.resumeAfter 1).cursor) :=
      seekLine_of_startsLine flush (by rw [cursor]; exact next)
    let settled : Lexer := { lexer.resumeAfter 1 with indents := [], atLineStart := false }
    let dedent := layout .dedent ⟨2, 1⟩
    have beside : Beside 1 (line.length + 1) { ofChars rest with atLineStart := false }
        { settled with pending := [], last := some .dedent } :=
      ⟨place, rfl, .nil, rfl, rfl, rfl, rfl⟩
    have later := (yields.congr (next_ofChars next flush)).beside skip beside
    have given : (lexer.resumeAfter 1).next = (dedent,
        { settled with pending := replicate outer.length dedent, last := some .dedent }) := by
      rw [Lexer.next, scan_atLineStart rfl rfl rfl rfl found]
      have line : (lexer.resumeAfter 1).cursor.position.line = 2 := by rw [cursor]
      have open_ : (lexer.resumeAfter 1).indents = width :: outer := blocks
      rw [blocks] at stacked
      simp only [line, open_, indentTokens_stacked stacked]
      rfl
    have waiting : ∀ token ∈ replicate outer.length dedent, token.kind = .dedent :=
      forall_mem_replicate.mpr (.inr rfl)
    refine ⟨dedent :: replicate outer.length dedent, forall_mem_cons.mpr ⟨rfl, waiting⟩, ?_,
      .ofNext given TokenKind.noConfusion (.pending waiting later)⟩
    have most := stacked.length_le
    rw [blocks] at most
    simpa using most

end Resumed

end Stubwise.Lexer
