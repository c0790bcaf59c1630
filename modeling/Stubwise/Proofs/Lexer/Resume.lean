import Stubwise.Proofs.Lexer.Layout

/-!
Going on after an abandoned bracket. The lexer goes back to the start of a line, but always to a
line behind that of the statement it leaves.
-/

namespace Stubwise

open List

variable {before rest : List Char} {widths : List Nat} {bound count : Nat}

/-- The text behind the first `count` lines. -/
def textAfter : Nat → List Char → List Char
  | 0, text => text
  | _ + 1, [] => []
  | count + 1, c :: rest => if c == '\n' then textAfter count rest else textAfter (count + 1) rest

theorem textAfter_length_lt {text : List Char} (some : 0 < count)
    (nonempty : text ≠ []) : (textAfter count text).length < text.length := by
  fun_induction textAfter count text with
  | case1 => cases some
  | case2 => exact absurd rfl nonempty
  | case3 count _ rest _ ih =>
    rcases Nat.eq_zero_or_pos count with rfl | positive
    · simp [textAfter]
    · cases rest with
      | nil => cases count <;> simp [textAfter]
      | cons => exact Nat.lt_succ_of_lt (ih positive (by simp))
  | case4 _ _ rest _ ih =>
    cases rest with
    | nil => simp [textAfter]
    | cons => exact Nat.lt_succ_of_lt (ih some (by simp))

theorem textAfter_append_lt (fewer : before.count '\n' < count) (nonempty : rest ≠ []) :
    (textAfter count (before ++ rest)).length < rest.length := by
  induction before generalizing count with
  | nil => exact textAfter_length_lt (by omega) nonempty
  | cons c before ih =>
    obtain ⟨less, rfl⟩ : ∃ less, count = less + 1 := ⟨count - 1, by omega⟩
    by_cases lineEnd : c = '\n'
    · subst lineEnd
      rw [count_cons_self] at fewer
      simpa [textAfter] using ih (by omega : before.count '\n' < less)
    · rw [count_cons_of_ne lineEnd] at fewer
      simpa [textAfter, lineEnd] using ih fewer

theorem length_le_textAfter_append (enough : count ≤ before.count '\n') :
    rest.length ≤ (textAfter count (before ++ rest)).length := by
  induction before generalizing count with
  | nil =>
    rw [Nat.le_zero.mp enough]
    simp [textAfter]
  | cons c before ih =>
    cases count with
    | zero =>
      rw [textAfter, length_append]
      omega
    | succ count =>
      by_cases lineEnd : c = '\n'
      · subst lineEnd
        rw [count_cons_self] at enough
        simpa [textAfter] using ih (by omega : count ≤ before.count '\n')
      · rw [count_cons_of_ne lineEnd] at enough
        simpa [textAfter, lineEnd] using ih enough

namespace Cursor

def Placed (source : List Char) (cursor : Cursor) : Prop :=
  cursor.rest = [] ∨ ∃ before, source = before ++ cursor.rest ∧ cursor.StandsAfter before

variable {source text : List Char} {start stop : Cursor}

theorem Reaches.placed (reached : start.Reaches text stop) (placed : start.Placed source) :
    stop.Placed source := by
  rcases placed with ended | ⟨before, split, stands⟩
  · have rest := reached.rest
    rw [ended] at rest
    exact .inl (append_eq_nil_iff.mp rest.symm).2
  · refine .inr ⟨before ++ text, ?_, reached.standsAfter stands⟩
    rw [split, reached.rest, append_assoc]

theorem Placed.length_le (placed : start.Placed source) : start.rest.length ≤ source.length := by
  rcases placed with ended | ⟨before, split, _⟩
  · simp [ended]
  · simp [split]

theorem Placed.textAfter_lt (placed : start.Placed source) (nonempty : start.rest ≠ []) :
    (textAfter start.position.line source).length < start.rest.length := by
  rcases placed with ended | ⟨before, split, stands⟩
  · exact absurd ended nonempty
  · rw [stands.2, split]
    exact textAfter_append_lt (by simp [positionAfter, Nat.add_comm 1]) nonempty

end Cursor

namespace Lexer

theorem afterLine_some {text after : List Char} (found : afterLine text = some after) :
    ∃ line, text = line ++ '\n' :: after ∧ '\n' ∉ line := by
  fun_induction afterLine text with
  | case1 => cases found
  | case2 _ _ lineEnd =>
    cases found
    exact ⟨[], by rw [eq_of_beq lineEnd]; rfl, by simp⟩
  | case3 c _ other ih =>
    obtain ⟨line, rfl, free⟩ := ih found
    refine ⟨c :: line, rfl, ?_⟩
    simp only [mem_cons, not_or]
    exact ⟨fun same => other (by simp [← same]), free⟩

theorem resumePoint?_eq (line number : Nat) (limit : Option Nat) (text : List Char) :
    resumePoint? line number limit text =
      let width := lineWidth? (text.takeWhile (· != '\n'))
      let limit := if number == line then width else limit
      if line < number ∧ width.any (fun own => limit.any (decide <| own ≤ ·)) then
        some (number, text)
      else (afterLine text).bind (resumePoint? line (number + 1) limit) := by
  rw [resumePoint?]
  dsimp only
  generalize lineWidth? (text.takeWhile (· != '\n')) = width
  generalize (if number == line then width else limit) = bound
  cases width <;> cases bound <;> simp only [Option.any_none, Option.any_some, Bool.and_false,
    Bool.false_eq_true, and_false, if_false, Bool.and_eq_true, decide_eq_true_eq, gt_iff_lt]
  iterate 3 split <;> rename_i next <;> rw [next] <;> rfl
  split
  · rfl
  · split <;> rename_i next <;> rw [next] <;> rfl

theorem resumePoint?_some {line number found : Nat} {limit : Option Nat} {text : List Char}
    (resumes : resumePoint? line number limit text = some (found, rest)) :
    line < found ∧ ∃ before, text = before ++ rest ∧ found = number + before.count '\n' ∧
      (before = [] ∨ ∃ lines, before = lines ++ ['\n']) := by
  fun_induction resumePoint? line number limit text with
  | case1 _ _ _ _ _ _ holds =>
    cases resumes
    have later := (Bool.and_eq_true_iff.mp holds).1
    exact ⟨of_decide_eq_true later, [], rfl, rfl, .inl rfl⟩
  | case2 => cases resumes
  | case3 number limit text width limit' here holds after next ih =>
    obtain ⟨later, before, rfl, counted, atStart⟩ := ih resumes
    obtain ⟨first, rfl, free⟩ := afterLine_some next
    refine ⟨later, first ++ '\n' :: before, by simp, ?_, ?_⟩
    · rw [count_append, count_eq_zero.mpr free, count_cons_self]
      omega
    · rcases atStart with rfl | ⟨lines, rfl⟩
      · exact .inr ⟨first, rfl⟩
      · exact .inr ⟨first ++ '\n' :: lines, by simp⟩

/-- An abandoned bracket makes the lexer go on at the start of a line behind `line`, or at the end of
the text. -/
theorem resumeAfter_place (line : Nat) (lexer : Lexer) :
    (lexer.resumeAfter line).cursor.rest = [] ∨
      ∃ before, lexer.source = before ++ (lexer.resumeAfter line).cursor.rest ∧
        (lexer.resumeAfter line).cursor.StandsAfter before ∧
        (lexer.resumeAfter line).cursor.position.col = 1 ∧
        line < (lexer.resumeAfter line).cursor.position.line := by
  cases point : resumePoint? line 1 none lexer.source with
  | none => exact .inl (by simp [resumeAfter, point])
  | some found =>
    obtain ⟨number, rest⟩ := found
    obtain ⟨later, before, split, counted, atStart⟩ := resumePoint?_some point
    have moved : (lexer.resumeAfter line).cursor =
        { rest, offset := lexer.source.length - rest.length
          position := { line := number, col := 1 } } := by
      simp [resumeAfter, point]
    rw [moved]
    refine .inr ⟨before, split, ⟨?_, ?_⟩, rfl, later⟩
    · simp [split]
    · rcases atStart with rfl | ⟨lines, rfl⟩ <;> simp [Cursor.positionAfter, counted]

/-- The open blocks are narrower outside than inside, and none is wider than `bound`. -/
def Stacked : Nat → List Nat → Prop
  | _, [] => True
  | bound, width :: outer => 0 < width ∧ width ≤ bound ∧ Stacked (width - 1) outer

theorem Stacked.length_le (stacked : Stacked bound widths) : widths.length ≤ bound := by
  induction widths generalizing bound with
  | nil => exact Nat.zero_le _
  | cons _ _ ih =>
    obtain ⟨positive, wide, others⟩ := stacked
    have shorter := ih others
    simp only [length_cons]
    omega

theorem Stacked.mono {larger : Nat} (stacked : Stacked bound widths)
    (most : widths.headD 0 ≤ larger) : Stacked larger widths := by
  cases widths with
  | nil => trivial
  | cons => exact ⟨stacked.1, most, stacked.2.2⟩

theorem Stacked.drop (stacked : Stacked bound widths) (count : Nat) : Stacked bound (widths.drop count) := by
  induction count generalizing bound widths with
  | zero => exact stacked
  | succ count ih =>
    cases widths with
    | nil => trivial
    | cons width outer =>
      obtain ⟨positive, wide, others⟩ := stacked
      refine ih (others.mono ?_)
      cases outer with
      | nil => exact Nat.zero_le _
      | cons next outer =>
        have inner : next ≤ width - 1 := others.2.1
        simp only [headD_cons]
        omega

theorem Stacked.push {width : Nat} (stacked : Stacked bound widths)
    (wider : widths.headD 0 < width) (fits : width ≤ bound) : Stacked bound (width :: widths) :=
  ⟨by omega, fits, stacked.mono (by omega)⟩

/-- A lexer that reads `source`, from wherever it was set to go on. -/
structure Sound (source : List Char) (lexer : Lexer) : Prop where
  text : lexer.source = source
  placed : lexer.cursor.Placed source
  blocks : Stacked (8 * source.length) lexer.indents
  /-- Only the last pending token may be more than layout: it complains about the line ahead. -/
  faults : ∀ token ∈ lexer.pending, token.kind.isOrdinary = true →
    token.position.line = lexer.cursor.position.line ∧ lexer.cursor.rest ≠ []
  layout : ∀ token ∈ lexer.pending.dropLast, token.kind.isOrdinary = false
  consistent : lexer.Consistent
  behind : ∀ kind, lexer.last = some kind → kind.isOrdinary = true →
    lexer.pending = [] ∧ lexer.finished = false

variable {source : List Char} {lexer after : Lexer} {token : Token}

theorem sound_ofText (source : String) : (ofText source).Sound source.toList where
  text := rfl
  placed := .inr ⟨[], rfl, rfl, rfl⟩
  blocks := trivial
  faults := by simp [ofText, ofChars]
  layout := by simp [ofText, ofChars]
  consistent := consistent_ofText source
  behind := by simp [ofText, ofChars]

theorem Sound.resumeAfter (sound : lexer.Sound source) (line : Nat) :
    (lexer.resumeAfter line).Sound source where
  text := sound.text
  placed := by
    rcases resumeAfter_place line lexer with ended | ⟨before, split, stands, _⟩
    · exact .inl ended
    · rw [sound.text] at split
      exact .inr ⟨before, split, stands⟩
  blocks := sound.blocks
  faults := by simp [Lexer.resumeAfter]
  layout := by simp [Lexer.resumeAfter]
  consistent := by constructor <;> simp [Lexer.resumeAfter]
  behind := by
    rintro kind last ordinary
    cases last
    cases ordinary

theorem Sound.layoutTokens (sound : lexer.Sound source) {indents : List Nat} {later : List Token}
    (layout : lexer.layoutTokens = (indents, token :: later)) :
    Stacked (8 * source.length) indents ∧
    (∀ other ∈ (token :: later).dropLast, other.kind.isOrdinary = false) ∧
    ∀ other ∈ token :: later, other.kind.isOrdinary = true →
      other.position.line = lexer.settle.cursor.position.line ∧ lexer.settle.cursor.rest ≠ [] := by
  obtain ⟨width, found, _, _, _, tokens⟩ := layoutTokens_cons layout
  obtain ⟨measured, c, rest, shape, _⟩ := seekLine_some found
  have length := sound.placed.length_le
  have dedents (count : Nat) : ∀ other ∈ replicate count
      (Lexer.layout .dedent ⟨lexer.settle.cursor.position.line, 1⟩),
      other.kind.isOrdinary = false :=
    forall_mem_replicate.mpr (.inr rfl)
  rcases indentTokens_cases width lexer.settle.cursor.position.line lexer.indents with
    ⟨wider, opened⟩ | ⟨count, fault, _, _, single, illegal, closed⟩ | unchanged
  · rw [opened] at tokens
    cases tokens
    refine ⟨sound.blocks.push wider (by omega), by simp, fun other member ordinary => ?_⟩
    rw [mem_singleton.mp member] at ordinary
    cases ordinary
  · rw [closed] at tokens
    obtain ⟨rfl, sequence⟩ := Prod.mk.inj tokens
    rw [← sequence]
    refine ⟨sound.blocks.drop count, ?_, ?_⟩
    · cases fault with
      | nil =>
        rw [append_nil]
        exact fun other member => dedents count other (dropLast_subset _ member)
      | cons _ rest =>
        obtain rfl : rest = [] := eq_nil_of_length_eq_zero (by simpa using single)
        rw [dropLast_concat]
        exact dedents count
    · intro other member ordinary
      rcases mem_append.mp member with dedent | odd
      · simp [dedents count other dedent] at ordinary
      · exact ⟨(illegal other odd).2.2, by simp [shape]⟩
  · simp [unchanged] at tokens

theorem Step.behind (sound : lexer.Sound source) (step : Step lexer token after)
    (ordinary : token.kind.isOrdinary) : after.pending = [] ∧ after.finished = false := by
  have consistent := sound.consistent
  cases step with
  | given ready =>
    rename_i later
    have member : token ∈ lexer.pending := by rw [ready]; simp
    refine ⟨?_, ?_⟩
    · cases later with
      | nil => rfl
      | cons =>
        have layout := sound.layout token (by rw [ready]; simp [dropLast])
        simp [ordinary] at layout
    · cases finished : lexer.finished with
      | false => rfl
      | true => simp [(consistent.closesText finished).quiet member] at ordinary
  | ended => cases ordinary
  | laidOut _ _ layout =>
    rcases (layoutTokens_blocks layout).2.2 with ⟨kind, _⟩ | ⟨kind, _⟩ <;>
      rw [kind] at ordinary <;> cases ordinary
  | closed _ _ _ _ _ closing =>
    simp [(closingTokens_closeText closing).quiet mem_cons_self] at ordinary
  | lineEnd => cases ordinary
  | read spent going => exact ⟨spent, going⟩

/-- A step stays within the source. -/
theorem Step.sound (sound : lexer.Sound source) (step : Step lexer token after) :
    Sound source { after with last := some token.kind } := by
  have consistent := step.consistent sound.consistent
  have behind : ∀ kind, some token.kind = some kind → kind.isOrdinary = true →
      after.pending = [] ∧ after.finished = false := by
    rintro kind same ordinary
    cases same
    exact step.behind sound ordinary
  have placed {start : Cursor} (reached : skipTrivia (lexer.depth != 0) lexer.settle.cursor = start) :
      start.Placed source := by
    obtain ⟨gap, passed⟩ := start_passes reached
    exact passed.reached.placed sound.placed
  cases step with
  | given ready =>
    rename_i later
    refine ⟨sound.text, sound.placed, sound.blocks, fun other member => ?_,
      fun other member => ?_, consistent, behind⟩
    · exact sound.faults other (by rw [ready]; exact mem_cons_of_mem _ member)
    · refine sound.layout other ?_
      rw [ready]
      cases later with
      | nil => simp at member
      | cons => exact mem_cons_of_mem _ member
  | ended =>
    exact ⟨sound.text, sound.placed, sound.blocks, sound.faults, sound.layout, consistent, behind⟩
  | laidOut spent going layout =>
    rename_i indents later
    obtain ⟨stacked, others, faults⟩ := sound.layoutTokens layout
    obtain ⟨gap, passed⟩ := settle_passes lexer
    refine ⟨sound.text, passed.reached.placed sound.placed, stacked, fun other member => ?_,
      fun other member => ?_, consistent, behind⟩
    · exact faults other (mem_cons_of_mem _ member)
    · refine others other ?_
      cases later with
      | nil => simp at member
      | cons => exact mem_cons_of_mem _ member
  | closed spent going layout reached atEnd closing =>
    rename_i start later
    have quiet (other : Token) (member : other ∈ later) : other.kind.isOrdinary = false :=
      (closingTokens_closeText closing).quiet (mem_cons_of_mem _ member)
    refine ⟨sound.text, placed reached, trivial, fun other member ordinary => ?_,
      fun other member => ?_, consistent, behind⟩
    · simp [quiet other member] at ordinary
    · exact quiet other (dropLast_subset _ member)
  | lineEnd spent going layout reached inText atLineEnd =>
    rename_i start
    obtain ⟨c, rest, shape, _⟩ := Cursor.exists_rest_of_not_atEnd inText
    refine ⟨sound.text, (Cursor.Reaches.next shape).placed (placed reached), sound.blocks,
      ?_, ?_, consistent, behind⟩
    · simp [settle, spent]
    · simp [settle, spent]
  | read spent _ _ reached inText =>
    obtain ⟨c, rest, shape, _⟩ := Cursor.exists_rest_of_not_atEnd inText
    obtain ⟨text, _, taken, _⟩ := (readToken_takes shape).reached
    refine ⟨sound.text, taken.placed (placed reached), sound.blocks, ?_, ?_, consistent, behind⟩
    · simp [settle, spent]
    · simp [settle, spent]

/-- What a character weighs: more than all blocks of the text, which an abandoned bracket leaves
open. -/
def unit (source : List Char) : Nat :=
  16 * source.length + 3

/-- The rank of a token on this line, which the text behind the line decides. -/
def lineRank (source : List Char) (line : Nat) : Nat :=
  unit source * ((textAfter line source).length + 1)

theorem lineRank_le_of_placed {cursor : Cursor} (placed : cursor.Placed source)
    (nonempty : cursor.rest ≠ []) :
    lineRank source cursor.position.line ≤ unit source * cursor.rest.length :=
  Nat.mul_le_mul_left _ (placed.textAfter_lt nonempty)

theorem Step.lineRank_le (sound : lexer.Sound source) (step : Step lexer token after)
    (ordinary : token.kind.isOrdinary) :
    lineRank source token.position.line ≤ lexer.weight (unit source) := by
  have heavy : unit source * lexer.cursor.rest.length ≤ lexer.weight (unit source) := by
    unfold weight
    omega
  refine Nat.le_trans ?_ heavy
  cases step with
  | given ready =>
    obtain ⟨line, nonempty⟩ := sound.faults token (by rw [ready]; simp) ordinary
    rw [line]
    exact lineRank_le_of_placed sound.placed nonempty
  | ended => cases ordinary
  | laidOut _ _ layout =>
    rcases (layoutTokens_blocks layout).2.2 with ⟨kind, _⟩ | ⟨kind, _⟩ <;>
      rw [kind] at ordinary <;> cases ordinary
  | closed _ _ _ _ _ closing =>
    simp [(closingTokens_closeText closing).quiet mem_cons_self] at ordinary
  | lineEnd => cases ordinary
  | read _ _ _ reached inText =>
    obtain ⟨c, rest, shape, _⟩ := Cursor.exists_rest_of_not_atEnd inText
    obtain ⟨gap, passed⟩ := start_passes reached
    rw [(readToken_takes shape).position]
    exact Nat.le_trans (lineRank_le_of_placed (passed.reached.placed sound.placed) (by simp [shape]))
      (Nat.mul_le_mul_left _ (start_length_le reached))

theorem Step.follows (sound : lexer.Sound source) {kind : TokenKind}
    (last : lexer.last = some kind) (ordinary : kind.isOrdinary)
    (step : Step lexer token after) : token.kind.isOrdinary = true ∨ token.kind = .newline := by
  obtain ⟨quiet, unfinished⟩ := sound.behind kind last ordinary
  cases step with
  | given ready => simp [quiet] at ready
  | ended _ finished => simp [unfinished] at finished
  | laidOut _ _ layout =>
    have atStart := (layoutTokens_blocks layout).2.1
    rcases (sound.consistent.lineStart atStart).2.2.2 with none | newline
    · simp [last] at none
    · rw [last] at newline
      cases newline
      cases ordinary
  | closed _ _ _ _ _ closing =>
    have needed : needsNewline lexer.last = true := by
      rw [last]
      cases kind <;> first | rfl | cases ordinary
    simp only [closingTokens, settle, needed, if_true, cons_append] at closing
    cases closing
    exact .inr rfl
  | lineEnd => exact .inr rfl
  | read _ _ _ _ inText => exact .inl (readToken_ordinary inText)

theorem Sound.next (sound : lexer.Sound source) : lexer.next.2.Sound source := by
  obtain ⟨scanned, step, result⟩ := next_step lexer
  rw [result]
  exact step.sound sound

theorem Sound.weight_resumeAfter_lt (sound : lexer.Sound source) (line : Nat) :
    (lexer.resumeAfter line).weight (unit source) < lineRank source line := by
  have blocks := (sound.resumeAfter line).blocks.length_le
  have rest : (lexer.resumeAfter line).cursor.rest.length ≤ (textAfter line source).length := by
    rcases resumeAfter_place line lexer with ended | ⟨before, split, stands, _, later⟩
    · simp [ended]
    · rw [sound.text] at split
      rw [stands.2, Cursor.positionAfter] at later
      rw [split]
      exact length_le_textAfter_append (by simp only at later; omega)
  have scaled := Nat.mul_le_mul_left (unit source) rest
  have quiet : (lexer.resumeAfter line).pending = [] := rfl
  have going : (lexer.resumeAfter line).finished = false := rfl
  have whole : lineRank source line =
      unit source * (textAfter line source).length + (16 * source.length + 3) := by
    rfl
  simp only [weight, quiet, going, length_nil, Bool.false_eq_true, if_false]
  omega

/-- The tokens have falling ranks, from `rank` on; each that is not layout ranks at least as high as
its line, and stands in front of another such token or of a line end. -/
inductive Descends (source : List Char) : Nat → List Token → Prop where
  | last {rank : Nat} {token : Token} (ended : token.kind = .eof) : Descends source rank [token]
  | more {rank less : Nat} {token : Token} {tokens : List Token} (going : token.kind ≠ .eof)
      (above : token.kind.isOrdinary = true → lineRank source token.position.line ≤ rank)
      (follows : token.kind.isOrdinary = true → ∀ next ∈ tokens.head?,
        next.kind.isOrdinary = true ∨ next.kind = .newline)
      (falls : less < rank) (rest : Descends source less tokens) :
      Descends source rank (token :: tokens)

namespace Descends

variable {rank larger : Nat} {tokens left : List Token}

theorem mono (descends : Descends source rank tokens) (more : rank ≤ larger) :
    Descends source larger tokens := by
  cases descends with
  | last ended => exact .last ended
  | more going above follows falls rest =>
    exact .more going (fun ordinary => Nat.le_trans (above ordinary) more) follows
      (by omega) rest

theorem length_le (descends : Descends source rank tokens) : tokens.length ≤ rank + 1 := by
  induction descends with
  | last => exact Nat.le_add_left _ _
  | more =>
    simp only [length_cons]
    omega

theorem suffix (descends : Descends source rank tokens) (shorter : left <:+ tokens)
    (nonempty : left ≠ []) : Descends source rank left := by
  induction descends with
  | last ended =>
    rcases suffix_cons_iff.mp shorter with rfl | nothing
    · exact .last ended
    · exact absurd (suffix_nil.mp nothing) nonempty
  | more going above follows falls rest ih =>
    rcases suffix_cons_iff.mp shorter with rfl | shorter
    · exact .more going above follows falls rest
    · exact (ih shorter).mono (by omega)

end Descends

theorem Yields.descends {tokens : List Token} (yields : Yields lexer tokens)
    (sound : lexer.Sound source) : Descends source (lexer.weight (unit source)) tokens := by
  induction yields with
  | last ended => exact .last ended
  | @more lexer tokens going rest ih =>
    obtain ⟨scanned, step, result⟩ := next_step lexer
    have last : lexer.next.2.last = some lexer.next.1.kind := by rw [result]
    refine .more going (step.lineRank_le sound) ?_
      (next_weight_lt (Nat.le_add_left 3 _) going) (ih sound.next)
    intro ordinary next head
    obtain ⟨later, nextStep, _⟩ := next_step lexer.next.2
    have first : next = lexer.next.2.next.1 := by
      cases rest <;> simpa using head.symm
    rw [first]
    exact nextStep.follows sound.next last ordinary

end Lexer

end Stubwise
