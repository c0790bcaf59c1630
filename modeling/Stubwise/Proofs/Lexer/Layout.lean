import Stubwise.Proofs.Lexer.Progress

/-!
Layout tokens are well formed: blocks are opened behind line ends only and closed as often as they
are opened, and inside brackets there is no layout.
-/

namespace Stubwise

open List

variable {before later : List Token} {kind : TokenKind}

def countKind (kind : TokenKind) (tokens : List Token) : Nat :=
  tokens.countP (·.kind == kind)

/-- How many brackets are open behind the tokens where `depth` were open in front of them; a closing
bracket without an open one counts for nothing. -/
def bracketsAfter (depth : Nat) : List Token → Nat
  | [] => depth
  | token :: rest =>
    match token.kind with
    | .symbol .openParen | .symbol .openBracket | .symbol .openBrace =>
      bracketsAfter (depth + 1) rest
    | .symbol .closeParen | .symbol .closeBracket | .symbol .closeBrace =>
      bracketsAfter (depth - 1) rest
    | _ => bracketsAfter depth rest

theorem bracketsAfter_cons (depth : Nat) (token : Token) (rest : List Token) :
    bracketsAfter depth (token :: rest) = bracketsAfter (Lexer.depthAfter depth token.kind) rest := by
  simp only [bracketsAfter]
  split <;> simp_all [Lexer.depthAfter, Symbol.opens, Symbol.closes]
  split
  · rename_i symbol _
    cases symbol <;> simp_all
  · rfl

/-- The tokens that close a text at `position`: its last line, its open blocks, and the text. -/
def ClosesText (position : Position) (tokens : List Token) : Prop :=
  ∀ token ∈ tokens, (token.kind = .newline ∨ token.kind = .dedent ∨ token.kind = .eof) ∧
    token = Lexer.endToken token.kind position

theorem ClosesText.quiet {position : Position} {tokens : List Token} {token : Token}
    (closes : ClosesText position tokens) (member : token ∈ tokens) : token.kind.isOrdinary = false := by
  rcases (closes token member).1 with kind | kind | kind <;> rw [kind] <;> rfl

namespace Lexer

variable {lexer after : Lexer} {token : Token} {tokens : List Token}

def endTokens (position : Position) (count : Nat) : List Token :=
  replicate count (endToken .dedent position) ++ [endToken .eof position]

theorem endTokens_closeText (position : Position) (count : Nat) :
    ClosesText position (endTokens position count) :=
  forall_mem_append.mpr ⟨forall_mem_replicate.mpr (.inr ⟨.inr (.inl rfl), rfl⟩),
    forall_mem_singleton.mpr ⟨.inr (.inr rfl), rfl⟩⟩

def openBlocks (lexer : Lexer) : Nat :=
  lexer.indents.length + countKind .dedent lexer.pending

/-- What the parts of a lexer know about each other. -/
structure Consistent (lexer : Lexer) : Prop where
  /-- Before the end of the text only the layout of a line is pending, outside of brackets. -/
  line : lexer.finished = false → ∀ token ∈ lexer.pending,
    (token.kind = .dedent ∨ token.kind = .illegal) ∧ lexer.depth = 0
  /-- Behind it only tokens that close the text are. -/
  closing : lexer.finished = true → lexer.indents = [] ∧
    (lexer.pending = [] ∨ ∃ count, lexer.pending = endTokens lexer.cursor.position count)
  /-- A line starts behind a line end or at the start of the text. -/
  lineStart : lexer.atLineStart = true → lexer.depth = 0 ∧ lexer.pending = [] ∧
    lexer.finished = false ∧ (lexer.last = none ∨ lexer.last = some .newline)

theorem consistent_ofText (source : String) : (ofText source).Consistent where
  line := by simp [ofText, ofChars]
  closing := by simp [ofText, ofChars]
  lineStart := by simp [ofText, ofChars]

theorem Consistent.settle_atLineStart (consistent : lexer.Consistent) : lexer.settle.atLineStart = false := by
  cases atStart : lexer.atLineStart with
  | false => simp [settle, atStart]
  | true =>
    have outside := (consistent.lineStart atStart).1
    simp [settle, atStart, outside]

theorem Consistent.closesText (consistent : lexer.Consistent) (finished : lexer.finished) :
    ClosesText lexer.cursor.position lexer.pending := by
  rcases (consistent.closing finished).2 with empty | ⟨count, closes⟩
  · simp [empty, ClosesText]
  · rw [closes]
    exact endTokens_closeText _ _

theorem closingTokens_eq (lexer : Lexer) : closingTokens lexer =
    (if needsNewline lexer.last then [endToken .newline lexer.cursor.position] else []) ++
      endTokens lexer.cursor.position lexer.indents.length := by
  simp [closingTokens, endTokens, map_const']

theorem closingTokens_closeText (closing : closingTokens lexer = tokens) :
    ClosesText lexer.cursor.position tokens := by
  rw [← closing, closingTokens_eq]
  refine forall_mem_append.mpr ⟨?_, endTokens_closeText _ _⟩
  split
  · exact forall_mem_singleton.mpr ⟨.inl rfl, rfl⟩
  · exact forall_mem_nil _

theorem closingTokens_cons (closing : closingTokens lexer = token :: later) :
    (token = endToken .newline lexer.cursor.position ∧
      later = endTokens lexer.cursor.position lexer.indents.length) ∨
    (∃ count, lexer.indents.length = count + 1 ∧ token = endToken .dedent lexer.cursor.position ∧
      later = endTokens lexer.cursor.position count) ∨
    (lexer.indents.length = 0 ∧ token = endToken .eof lexer.cursor.position ∧ later = []) := by
  rw [closingTokens_eq] at closing
  split at closing
  · cases closing
    exact .inl ⟨rfl, rfl⟩
  · cases size : lexer.indents.length with
    | zero =>
      rw [size] at closing
      cases closing
      exact .inr (.inr ⟨rfl, rfl, rfl⟩)
    | succ count =>
      rw [size] at closing
      cases closing
      exact .inr (.inl ⟨count, rfl, rfl, rfl⟩)

theorem layoutTokens_blocks {indents : List Nat} (layout : lexer.layoutTokens = (indents, token :: later)) :
    lexer.depth = 0 ∧ lexer.atLineStart = true ∧
    ((token.kind = .indent ∧ later = [] ∧ indents.length = lexer.indents.length + 1) ∨
      (token.kind = .dedent ∧ (∀ token ∈ later, token.kind = .dedent ∨ token.kind = .illegal) ∧
        indents.length + countKind .dedent later + 1 = lexer.indents.length)) := by
  obtain ⟨width, _, _, outside, atStart, result⟩ := layoutTokens_cons layout
  refine ⟨outside, atStart, ?_⟩
  rcases indentTokens_cases width lexer.settle.cursor.position.line lexer.indents with
    ⟨_, opened⟩ | ⟨count, fault, some, bound, _, illegal, closed⟩ | unchanged
  · rw [opened] at result
    cases result
    exact .inl ⟨rfl, rfl, rfl⟩
  · obtain ⟨rest, rfl⟩ : ∃ rest, count = rest + 1 := ⟨count - 1, by omega⟩
    rw [closed, replicate_succ, cons_append] at result
    cases result
    refine .inr ⟨rfl, ?_, ?_⟩
    · exact forall_mem_append.mpr ⟨forall_mem_replicate.mpr (.inr (.inl rfl)),
        fun token odd => .inr (illegal token odd).1⟩
    · have none : countKind .dedent fault = 0 := by
        rw [countKind, countP_eq_zero]
        intro token member
        simp [(illegal token member).1]
      have all : countKind .dedent (replicate rest (Lexer.layout .dedent
            ⟨lexer.settle.cursor.position.line, 1⟩)) = rest := by
        simp [countKind, Lexer.layout, countP_replicate]
      rw [countKind, countP_append, ← countKind, ← countKind, none, all, length_drop]
      omega
  · simp [unchanged] at result

theorem countKind_cons (kind : TokenKind) (token : Token) (tokens : List Token) :
    countKind kind (token :: tokens) = countKind kind [token] + countKind kind tokens := by
  rw [← singleton_append, countKind, countP_append, ← countKind, ← countKind]

theorem countKind_singleton_of_ne (other : token.kind ≠ kind) : countKind kind [token] = 0 := by
  simp [countKind, other]

theorem countKind_endTokens (position : Position) (count : Nat) :
    countKind .dedent (endTokens position count) = count := by
  simp [countKind, endTokens, endToken, countP_append, countP_replicate]

theorem Consistent.pending_kind (consistent : lexer.Consistent) (member : token ∈ lexer.pending) :
    token.kind = .dedent ∨ token.kind = .illegal ∨ token.kind = .eof := by
  cases finished : lexer.finished with
  | false => exact ((consistent.line finished token member).1).imp_right .inl
  | true =>
    rcases (consistent.closing finished).2 with empty | ⟨count, closes⟩
    · simp [empty] at member
    · rw [closes] at member
      rcases mem_append.mp member with dedent | eof
      · exact .inl (by rw [eq_of_mem_replicate dedent]; rfl)
      · exact .inr (.inr (by rw [mem_singleton.mp eof]; rfl))

theorem endTokens_tail {position : Position} {count : Nat}
    (split : endTokens position count = token :: later) :
    later = [] ∨ ∃ count, later = endTokens position count := by
  cases count with
  | zero =>
    cases split
    exact .inl rfl
  | succ count =>
    cases split
    exact .inr ⟨count, rfl⟩

theorem depth_of_lineEnd {cursor : Cursor}
    (atLineEnd : (skipTrivia (lexer.depth != 0) cursor).current = '\n') : lexer.depth = 0 := by
  by_cases outside : lexer.depth = 0
  · exact outside
  · rw [bne_iff_ne.mpr outside] at atLineEnd
    exact absurd atLineEnd (skipTrivia_current_ne rfl cursor)

/-- One step keeps the lexer consistent. -/
theorem Step.consistent (consistent : lexer.Consistent) (step : Step lexer token after) :
    Consistent { after with last := some token.kind } := by
  have notAtStart := consistent.settle_atLineStart
  cases step with
  | given ready =>
    refine ⟨fun going later member => ?_, fun finished => ⟨?_, ?_⟩, fun atStart => ?_⟩
    · exact consistent.line going later (by rw [ready]; exact mem_cons_of_mem _ member)
    · exact (consistent.closing finished).1
    · rcases (consistent.closing finished).2 with empty | ⟨count, closes⟩
      · simp [ready] at empty
      · exact endTokens_tail (closes.symm.trans ready)
    · simp [(consistent.lineStart atStart).2.1] at ready
  | ended _ finished =>
    refine ⟨consistent.line, consistent.closing, fun atStart => ?_⟩
    simp [(consistent.lineStart atStart).2.2.1] at finished
  | laidOut _ going layout =>
    obtain ⟨outside, _, blocks⟩ := layoutTokens_blocks layout
    refine ⟨fun _ later member => ?_, fun finished => ?_, fun atStart => ?_⟩
    · rcases blocks with ⟨_, rfl, _⟩ | ⟨_, kinds, _⟩
      · simp at member
      · exact ⟨kinds later member, outside⟩
    · simp [settle, going] at finished
    · simp [notAtStart] at atStart
  | closed _ _ _ _ _ closing =>
    refine ⟨fun unfinished => by simp at unfinished, fun _ => ⟨rfl, ?_⟩, fun atStart => ?_⟩
    · rcases closingTokens_cons closing with ⟨_, rfl⟩ | ⟨count, _, _, rfl⟩ | ⟨_, _, rfl⟩
      · exact .inr ⟨_, rfl⟩
      · exact .inr ⟨_, rfl⟩
      · exact .inl rfl
    · simp [notAtStart] at atStart
  | lineEnd spent going _ reached _ atLineEnd =>
    rw [← reached] at atLineEnd
    refine ⟨fun _ later member => ?_, fun finished => ?_, fun _ => ?_⟩
    · simp [settle, spent] at member
    · simp [settle, going] at finished
    · exact ⟨depth_of_lineEnd atLineEnd, spent, going, .inr rfl⟩
  | read spent going =>
    refine ⟨fun _ later member => ?_, fun finished => ?_, fun atStart => ?_⟩
    · simp [settle, spent] at member
    · simp [settle, going] at finished
    · simp [notAtStart] at atStart

theorem readToken_ordinary {start : Cursor} (inText : start.atEnd = false) :
    (readToken start).1.kind.isOrdinary = true := by
  obtain ⟨c, rest, shape, _⟩ := Cursor.exists_rest_of_not_atEnd inText
  exact (readToken_takes shape).ordinary

theorem ne_of_isOrdinary {other : TokenKind} (ordinary : kind.isOrdinary)
    (special : other.isOrdinary = false) : kind ≠ other := by
  rintro rfl
  simp [ordinary] at special

section

variable (consistent : lexer.Consistent) (step : Step lexer token after)
include consistent step

/-- A step opens a block with each indent and closes one with each dedent. -/
theorem Step.openBlocks :
    after.openBlocks + countKind .dedent [token] = lexer.openBlocks + countKind .indent [token] := by
  cases step with
  | given ready =>
    have member : token ∈ lexer.pending := by rw [ready]; simp
    have noIndent : countKind .indent [token] = 0 := countKind_singleton_of_ne (by
      rcases consistent.pending_kind member with kind | kind | kind <;> simp [kind])
    rename_i later
    have split := countKind_cons .dedent token later
    rw [← ready] at split
    dsimp only [openBlocks]
    omega
  | ended => rfl
  | laidOut spent _ layout =>
    rcases (layoutTokens_blocks layout).2.2 with ⟨kind, rfl, length⟩ | ⟨kind, _, length⟩
    · simp [openBlocks, countKind, kind, spent, length]
    · simp only [countKind] at length
      simp only [openBlocks, countKind, spent, kind, countP_nil, countP_singleton]
      simp
      omega
  | closed spent _ _ _ _ closing =>
    rcases closingTokens_cons closing with ⟨rfl, rfl⟩ | ⟨count, size, rfl, rfl⟩ | ⟨size, rfl, rfl⟩
    · simp only [openBlocks, countKind_endTokens, spent]
      simp [countKind, endToken, settle]
    · simp only [openBlocks, countKind_endTokens, spent]
      simp only [settle] at size
      simp [countKind, endToken, size]
    · simp only [settle] at size
      simp [openBlocks, countKind, endToken, spent, length_eq_zero_iff.mp size]
  | lineEnd => rfl
  | read _ _ _ _ inText =>
    have ordinary := readToken_ordinary inText
    rw [countKind_singleton_of_ne (ne_of_isOrdinary ordinary rfl),
      countKind_singleton_of_ne (ne_of_isOrdinary ordinary rfl)]
    rfl

theorem Step.depth : after.depth = depthAfter lexer.depth token.kind := by
  cases step with
  | given ready =>
    have member : token ∈ lexer.pending := by rw [ready]; simp
    rcases consistent.pending_kind member with kind | kind | kind <;> rw [kind] <;> rfl
  | ended => rfl
  | laidOut _ _ layout =>
    rcases (layoutTokens_blocks layout).2.2 with ⟨kind, _, _⟩ | ⟨kind, _, _⟩ <;> rw [kind] <;> rfl
  | closed _ _ _ _ _ closing =>
    rcases closingTokens_cons closing with ⟨rfl, _⟩ | ⟨_, _, rfl, _⟩ | ⟨_, rfl, _⟩ <;> rfl
  | lineEnd => rfl
  | read => rfl

theorem Step.finished_of_layout (layout : token.kind.isLayout) (inside : lexer.depth ≠ 0) :
    after.finished = true ∧ ClosesText after.cursor.position [token] := by
  cases step with
  | given ready =>
    have member : token ∈ lexer.pending := by rw [ready]; simp
    cases finished : lexer.finished with
    | false => exact absurd (consistent.line finished token member).2 inside
    | true => exact ⟨rfl, forall_mem_singleton.mpr (consistent.closesText finished token member)⟩
  | ended => cases layout
  | laidOut _ _ tokens => exact absurd (layoutTokens_blocks tokens).1 inside
  | closed _ _ _ _ _ closing =>
    exact ⟨rfl, forall_mem_singleton.mpr (closingTokens_closeText closing token mem_cons_self)⟩
  | lineEnd _ _ _ reached _ atLineEnd =>
    rw [← reached] at atLineEnd
    exact absurd (depth_of_lineEnd atLineEnd) inside
  | read _ _ _ _ inText =>
    have ordinary := readToken_ordinary inText
    simp [TokenKind.isOrdinary, layout] at ordinary

theorem Step.closesText (finished : lexer.finished) :
    after.finished = true ∧ after.cursor = lexer.cursor ∧ ClosesText lexer.cursor.position [token] := by
  cases step with
  | given ready =>
    have member : token ∈ lexer.pending := by rw [ready]; simp
    exact ⟨finished, rfl, forall_mem_singleton.mpr (consistent.closesText finished token member)⟩
  | ended => exact ⟨finished, rfl, forall_mem_singleton.mpr ⟨.inr (.inr rfl), rfl⟩⟩
  | laidOut _ going | closed _ going | lineEnd _ going | read _ going => simp [finished] at going

theorem Step.atLineStart_of_indent
    (indent : token.kind = .indent) : lexer.last = none ∨ lexer.last = some .newline := by
  cases step with
  | given ready =>
    have member : token ∈ lexer.pending := by rw [ready]; simp
    rcases consistent.pending_kind member with kind | kind | kind <;> simp [kind] at indent
  | ended => cases indent
  | laidOut _ _ layout =>
    exact (consistent.lineStart (layoutTokens_blocks layout).2.1).2.2.2
  | closed _ _ _ _ _ closing =>
    rcases closingTokens_cons closing with ⟨rfl, _⟩ | ⟨_, _, rfl, _⟩ | ⟨_, rfl, _⟩ <;> cases indent
  | lineEnd => cases indent
  | read _ _ _ _ inText =>
    have ordinary := readToken_ordinary inText
    rw [indent] at ordinary
    cases ordinary

theorem Step.openBlocks_of_eof (eof : token.kind = .eof) : lexer.openBlocks = 0 := by
  cases step with
  | given ready =>
    have member : token ∈ lexer.pending := by rw [ready]; simp
    cases finished : lexer.finished with
    | false =>
      rcases (consistent.line finished token member).1 with kind | kind <;> simp [kind] at eof
    | true =>
      obtain ⟨closed, empty | ⟨count, closes⟩⟩ := consistent.closing finished
      · simp [empty] at member
      · cases count with
        | zero => simp [Lexer.openBlocks, closed, closes, countKind_endTokens]
        | succ =>
          rw [closes] at ready
          cases ready
          cases eof
  | ended spent finished =>
    simp [Lexer.openBlocks, (consistent.closing finished).1, spent, countKind]
  | laidOut _ _ layout =>
    rcases (layoutTokens_blocks layout).2.2 with ⟨kind, _, _⟩ | ⟨kind, _, _⟩ <;> simp [kind] at eof
  | closed spent _ _ _ _ closing =>
    rcases closingTokens_cons closing with ⟨rfl, _⟩ | ⟨_, _, rfl, _⟩ | ⟨size, rfl, _⟩
    · cases eof
    · cases eof
    · simpa [Lexer.openBlocks, spent, countKind, settle] using size
  | lineEnd => cases eof
  | read _ _ _ _ inText =>
    have ordinary := readToken_ordinary inText
    rw [eof] at ordinary
    cases ordinary

end

theorem next_consistent (consistent : lexer.Consistent) : lexer.next.2.Consistent := by
  obtain ⟨scanned, step, result⟩ := next_step lexer
  rw [result]
  exact step.consistent consistent

namespace Yields

variable (yields : Yields lexer tokens) (consistent : lexer.Consistent)
include yields consistent

theorem closesText (finished : lexer.finished) : ClosesText lexer.cursor.position tokens := by
  induction yields with
  | @last lexer ended =>
    obtain ⟨scanned, step, _⟩ := next_step lexer
    exact (step.closesText consistent finished).2.2
  | @more lexer tokens going rest ih =>
    obtain ⟨scanned, step, result⟩ := next_step lexer
    obtain ⟨still, stays, first⟩ := step.closesText consistent finished
    have later := ih (next_consistent consistent) (by rw [result]; exact still)
    rw [result] at later
    exact forall_mem_cons.mpr ⟨first _ mem_cons_self, stays ▸ later⟩

theorem nested (isPrefix : before <+: tokens) :
    countKind .dedent before ≤ lexer.openBlocks + countKind .indent before := by
  induction yields generalizing before with
  | last ended =>
    rcases prefix_cons_iff.mp isPrefix with rfl | ⟨rest, rfl, nothing⟩
    · simp [countKind]
    · rw [prefix_nil.mp nothing, countKind_singleton_of_ne (by simp [ended])]
      omega
  | @more lexer tokens going rest ih =>
    obtain ⟨scanned, step, result⟩ := next_step lexer
    have counted := step.openBlocks consistent
    rcases prefix_cons_iff.mp isPrefix with rfl | ⟨later, rfl, shorter⟩
    · simp [countKind]
    · have others := ih (next_consistent consistent) shorter
      have same : lexer.next.2.openBlocks = scanned.openBlocks := by rw [result]; rfl
      rw [countKind_cons, countKind_cons .indent]
      omega

theorem balanced : countKind .dedent tokens = lexer.openBlocks + countKind .indent tokens := by
  induction yields with
  | @last lexer ended =>
    obtain ⟨scanned, step, _⟩ := next_step lexer
    rw [step.openBlocks_of_eof consistent ended, countKind_singleton_of_ne (by simp [ended]),
      countKind_singleton_of_ne (by simp [ended])]
  | @more lexer tokens going rest ih =>
    obtain ⟨scanned, step, result⟩ := next_step lexer
    have counted := step.openBlocks consistent
    have others := ih (next_consistent consistent)
    have same : lexer.next.2.openBlocks = scanned.openBlocks := by rw [result]; rfl
    rw [countKind_cons, countKind_cons .indent]
    omega

theorem indents (split : tokens = before ++ token :: later) (indent : token.kind = .indent) :
    (before = [] ∧ (lexer.last = none ∨ lexer.last = some .newline)) ∨
      ∃ earlier newline, before = earlier ++ [newline] ∧ newline.kind = .newline := by
  induction yields generalizing before with
  | last ended =>
    cases before with
    | nil =>
      cases split
      simp [indent] at ended
    | cons => simp at split
  | @more lexer tokens going rest ih =>
    obtain ⟨scanned, step, result⟩ := next_step lexer
    cases before with
    | nil =>
      cases split
      exact .inl ⟨rfl, step.atLineStart_of_indent consistent indent⟩
    | cons first before =>
      obtain ⟨rfl, tail⟩ := cons.inj split
      rcases ih (next_consistent consistent) tail with ⟨rfl, last⟩ | ⟨earlier, newline, rfl, kind⟩
      · have given : lexer.next.2.last = some lexer.next.1.kind := rfl
        refine .inr ⟨[], _, rfl, ?_⟩
        simpa [given] using last
      · exact .inr ⟨_ :: earlier, newline, rfl, kind⟩

theorem brackets (split : tokens = before ++ token :: later)
    (layout : token.kind.isLayout) (inside : bracketsAfter lexer.depth before ≠ 0) :
    ∃ position, ClosesText position (token :: later) := by
  induction yields generalizing before with
  | last ended =>
    cases before with
    | nil =>
      cases split
      simp [ended, TokenKind.isLayout] at layout
    | cons => simp at split
  | @more lexer tokens going rest ih =>
    obtain ⟨scanned, step, result⟩ := next_step lexer
    have following := next_consistent consistent
    cases before with
    | nil =>
      cases split
      obtain ⟨finished, first⟩ := step.finished_of_layout consistent layout inside
      have others := rest.closesText following (by rw [result]; exact finished)
      rw [result] at others
      exact ⟨scanned.cursor.position, forall_mem_cons.mpr ⟨first _ mem_cons_self, others⟩⟩
    | cons first before =>
      obtain ⟨rfl, tail⟩ := cons.inj split
      have depth : lexer.next.2.depth = scanned.depth := by rw [result]
      rw [bracketsAfter_cons, ← step.depth consistent, ← depth] at inside
      exact ih following tail inside

end Yields

end Lexer

/-- The layout of a list of tokens is well formed. -/
structure WellLaidOut (tokens : List Token) : Prop where
  /-- There is one `eof`, and it comes last. -/
  ends : ∃ body eof, tokens = body ++ [eof] ∧ eof.kind = .eof ∧ ∀ token ∈ body, token.kind ≠ .eof
  /-- A block is closed only after it was opened. -/
  nested : ∀ before, before <+: tokens → countKind .dedent before ≤ countKind .indent before
  balanced : countKind .dedent tokens = countKind .indent tokens
  /-- A block is opened at the start of the text or directly behind a line end. -/
  indents : ∀ before token later, tokens = before ++ token :: later → token.kind = .indent →
    before = [] ∨ ∃ earlier newline, before = earlier ++ [newline] ∧ newline.kind = .newline
  /-- While a bracket is open there is no layout but that which closes the text. -/
  brackets : ∀ before token later, tokens = before ++ token :: later →
    token.kind.isLayout = true → bracketsAfter 0 before ≠ 0 →
      ∃ position, ClosesText position (token :: later)

/-- The lexer comes to an end on every text, however long it is allowed to run, and the layout of
the tokens that it gives is well formed. -/
theorem tokenize_wellLaidOut (source : String) :
    WellLaidOut (tokenize source) ∧
      ∀ extra, (Lexer.ofText source).tokensWithin
        (Lexer.tokenBound source.length + extra) = tokenize source := by
  have yields := Lexer.tokenize_yields source
  have consistent := Lexer.consistent_ofText source
  refine ⟨⟨yields.ends, ?_, ?_, ?_, ?_⟩, fun extra => ?_⟩
  · intro before isPrefix
    simpa [Lexer.openBlocks, Lexer.ofText, Lexer.ofChars, countKind] using
      yields.nested consistent isPrefix
  · simpa [Lexer.openBlocks, Lexer.ofText, Lexer.ofChars, countKind] using yields.balanced consistent
  · intro before token later split indent
    exact (yields.indents consistent split indent).imp_left And.left
  · intro before token later split layout inside
    exact yields.brackets consistent split layout inside
  · rw [Lexer.tokensWithin_add (Lexer.weight_ofText source), tokenize, Lexer.tokens]
    rfl

end Stubwise
