import Stubwise.Proofs.Lexer.Layout

namespace Stubwise.Lexer

open List Cursor

variable {tokens : List Token}

/-- `Covers before text tokens`: behind `before`, the text is made up of the lexemes of `tokens` in
order, each at its true position, with gaps in front of, between and behind them. -/
inductive Covers : List Char → List Char → List Token → Prop where
  | done {before gap : List Char} (isGap : Gap gap []) : Covers before gap []
  | lexeme {before gap text rest : List Char} {token : Token} {tokens : List Token}
      (isGap : Gap gap (text ++ rest)) (nonempty : text ≠ [])
      (slice : token.lexeme.toList = text)
      (position : token.position = positionAfter (before ++ gap))
      (others : Covers (before ++ gap ++ text) rest tokens) :
      Covers before (gap ++ (text ++ rest)) (token :: tokens)

theorem Covers.gap {before gap text : List Char} (isGap : Gap gap text)
    (covered : Covers (before ++ gap) text tokens) : Covers before (gap ++ text) tokens := by
  cases covered with
  | done rest => exact .done (.append (by simpa using isGap) rest)
  | lexeme rest nonempty slice position others =>
    rw [← append_assoc]
    refine .lexeme (.append isGap rest) nonempty slice ?_ ?_
    · simpa only [append_assoc] using position
    · simpa only [append_assoc] using others

/-- The lexer stands in a text without end mark, behind `before`, and has only layout to give. -/
structure Located (before : List Char) (lexer : Lexer) : Prop where
  stands : lexer.cursor.StandsAfter before
  endless : endChar ∉ lexer.cursor.rest
  layout : ∀ token ∈ lexer.pending, token.lexeme = ""
  ends : ∀ token ∈ lexer.pending, token.kind = .eof → lexer.finished = true
  spent : lexer.finished = true → lexer.cursor.rest = []

variable {before : List Char} {lexer after : Lexer} {token : Token}

theorem Passes.located {gap : List Char} {stop : Cursor} (located : Located before lexer)
    (passed : Passes lexer.cursor gap stop) :
    Gap gap stop.rest ∧ stop.StandsAfter (before ++ gap) ∧ endChar ∉ stop.rest := by
  refine ⟨passed.isGap located.endless, passed.reached.standsAfter located.stands, ?_⟩
  intro member
  exact located.endless (by rw [passed.reached.rest]; exact mem_append_right _ member)

theorem layoutTokens_mem {indents : List Nat} (layout : lexer.layoutTokens = (indents, tokens)) :
    ∀ token ∈ tokens, token.lexeme = "" ∧ token.kind ≠ .eof := by
  cases tokens with
  | nil => simp
  | cons =>
    obtain ⟨width, _, _, _, _, result⟩ := layoutTokens_cons layout
    rcases indentTokens_cases width lexer.settle.cursor.position.line lexer.indents with
      ⟨_, opened⟩ | ⟨count, fault, _, _, _, illegal, closed⟩ | unchanged
    · rw [opened] at result
      cases result
      simp [Lexer.layout]
    · rw [closed] at result
      rw [← (Prod.mk.inj result).2]
      refine forall_mem_append.mpr ⟨forall_mem_replicate.mpr (.inr ⟨rfl, TokenKind.noConfusion⟩),
        fun token odd => ?_⟩
      obtain ⟨kind, lexeme, _⟩ := illegal token odd
      exact ⟨lexeme, by simp [kind]⟩
    · simp [unchanged] at result

/-- A step puts its token in front of what the steps behind it cover. -/
theorem Step.covers (located : Located before lexer) (step : Step lexer token after)
    (others : ∀ before, Located before after →
      Covers before after.cursor.rest (tokens.filter fun token => token.lexeme ≠ "")) :
    Covers before lexer.cursor.rest ((token :: tokens).filter fun token => token.lexeme ≠ "") := by
  have unseen (empty : token.lexeme = "") :
      (token :: tokens).filter (fun token => token.lexeme ≠ "") =
        tokens.filter fun token => token.lexeme ≠ "" := by
    simp [empty]
  have seen {start stop : Cursor} {gap : List Char} (passed : Passes lexer.cursor gap start)
      (shows : Shows start token stop) (cursor : after.cursor = stop)
      (going : after.finished = false) (quiet : after.pending = []) :
      Covers before lexer.cursor.rest ((token :: tokens).filter fun token => token.lexeme ≠ "") := by
    obtain ⟨isGap, stands, endless⟩ := passed.located located
    obtain ⟨text, nonempty, taken, slice⟩ := shows.reached
    have visible : token.lexeme ≠ "" := by
      rw [slice]
      intro empty
      exact nonempty (by simpa using congrArg String.toList empty)
    rw [filter_cons_of_pos (by simpa using visible), passed.reached.rest, taken.rest]
    rw [taken.rest] at isGap
    refine .lexeme isGap nonempty (by rw [slice, String.toList_ofList]) ?_ ?_
    · rw [shows.position, stands.2]
    · rw [← cursor]
      refine others _ ⟨?_, ?_, by simp [quiet], by simp [quiet], by simp [going]⟩
      · rw [cursor]
        exact taken.standsAfter stands
      · rw [cursor]
        intro member
        exact endless (by rw [taken.rest]; exact mem_append_right _ member)
  cases step with
  | given ready =>
    rw [unseen (located.layout _ (by rw [ready]; simp))]
    have kept : ∀ token ∈ _, token ∈ lexer.pending := fun token member => by
      rw [ready]
      exact mem_cons_of_mem _ member
    exact others before ⟨located.stands, located.endless,
      fun token member => located.layout token (kept token member),
      fun token member => located.ends token (kept token member), located.spent⟩
  | ended =>
    exact others before located
  | laidOut _ going layout =>
    have members := layoutTokens_mem layout
    rw [unseen (members _ (by simp)).1]
    obtain ⟨gap, passed⟩ := settle_passes lexer
    obtain ⟨isGap, stands, endless⟩ := passed.located located
    rw [passed.reached.rest]
    refine .gap isGap (others _ ⟨stands, endless, ?_, ?_, ?_⟩)
    · exact fun token member => (members token (mem_cons_of_mem _ member)).1
    · exact fun token member eof => absurd eof (members token (mem_cons_of_mem _ member)).2
    · intro finished
      simp [settle, going] at finished
  | closed spent going layout reached atEnd closing =>
    rename_i start later
    have empty (other : Token) (member : other ∈ token :: later) : other.lexeme = "" := by
      rw [(closingTokens_closeText closing other member).2]
      rfl
    rw [unseen (empty _ (by simp))]
    obtain ⟨gap, passed⟩ := start_passes reached
    obtain ⟨isGap, stands, endless⟩ := passed.located located
    have nothing : start.rest = [] := by
      cases shape : start.rest with
      | nil => rfl
      | cons c =>
        have first : c = endChar := by
          simpa [Cursor.atEnd, Cursor.current_of_rest shape] using atEnd
        exact absurd (by rw [shape, first]; simp) endless
    rw [passed.reached.rest]
    exact .gap isGap (others _ ⟨stands, endless,
      fun token member => empty token (mem_cons_of_mem _ member), fun _ _ _ => rfl,
      fun _ => nothing⟩)
  | lineEnd spent going layout reached inText atLineEnd =>
    obtain ⟨gap, passed⟩ := start_passes reached
    obtain ⟨c, rest, shape, _⟩ := exists_rest_of_not_atEnd inText
    rw [current_of_rest shape] at atLineEnd
    subst atLineEnd
    exact seen passed ⟨⟨['\n'], by simp, .next shape, rfl⟩, rfl⟩ rfl
      (by simpa [settle] using going) (by simpa [settle] using spent)
  | read spent going _ reached inText =>
    obtain ⟨gap, passed⟩ := start_passes reached
    obtain ⟨c, rest, shape, _⟩ := exists_rest_of_not_atEnd inText
    exact seen passed (readToken_takes shape).toShows rfl (by simpa [settle] using going)
      (by simpa [settle] using spent)

theorem Step.finished_of_eof (located : Located before lexer) (step : Step lexer token after)
    (ended : token.kind = .eof) : after.finished = true := by
  cases step with
  | given ready => exact located.ends token (by rw [ready]; simp) ended
  | ended _ finished => exact finished
  | laidOut _ _ layout => exact absurd ended (layoutTokens_mem layout _ (by simp)).2
  | closed => rfl
  | lineEnd => cases ended
  | read _ _ _ _ inText =>
    have ordinary := readToken_ordinary inText
    rw [ended] at ordinary
    cases ordinary

theorem Yields.covers (yields : Yields lexer tokens) (located : Located before lexer) :
    Covers before lexer.cursor.rest (tokens.filter fun token => token.lexeme ≠ "") := by
  induction yields generalizing before with
  | @last lexer ended =>
    obtain ⟨scanned, step, result⟩ := next_step lexer
    refine step.covers located fun before after => ?_
    rw [after.spent (step.finished_of_eof located ended)]
    exact .done .nil
  | @more lexer tokens going rest ih =>
    obtain ⟨scanned, step, result⟩ := next_step lexer
    rw [result] at ih
    exact step.covers located fun before after =>
      ih ⟨after.stands, after.endless, after.layout, after.ends, after.spent⟩

/-- The lexemes of a text without end mark make it up, with nothing but separators, comments and
line joins between them, and every lexeme is at the position that its token tells. -/
theorem tokenize_covers (source : String) (endless : endChar ∉ source.toList) :
    Covers [] source.toList ((tokenize source).filter fun token => token.lexeme ≠ "") := by
  refine (tokenize_yields source).covers ⟨⟨rfl, rfl⟩, endless, ?_, ?_, ?_⟩
  · simp [ofText, ofChars]
  · simp [ofText, ofChars]
  · simp [ofText, ofChars]

theorem tokenize_covers_commented_call :
    endChar ∉ "f(  # one\n\t'two', \\\n3.5)\n".toList ∧
      Covers [] "f(  # one\n\t'two', \\\n3.5)\n".toList
        ((tokenize "f(  # one\n\t'two', \\\n3.5)\n").filter fun token => token.lexeme ≠ "") :=
  have endless : endChar ∉ "f(  # one\n\t'two', \\\n3.5)\n".toList := by decide
  ⟨endless, tokenize_covers _ endless⟩

end Stubwise.Lexer
