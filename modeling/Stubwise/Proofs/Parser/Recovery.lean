import Stubwise.Proofs.Lexer.Resume
import Stubwise.Proofs.Parser.Expression

namespace Stubwise.Parser

open Lexer LiveStream TokenStream

set_option synthInstance.maxSize 400000

variable {source : List Char} {top rank less : Nat} {state : State}
  {bound limit : Nat} {start : Token} {read : ReadStmts}

/-- The tokens in front of the parser have ranks up to `rank`. It is at most `top`, and loops have
more turns than that. -/
def State.Ranks (source : List Char) (top rank : Nat) (state : State) : Prop :=
  ∃ tokens, state.Ready 0 tokens ∧ state.OnLexer (Lexer.Sound source) ∧
    Lexer.Descends source rank tokens ∧ rank ≤ top ∧ top < state.budget

namespace State.Ranks

theorem mono (ranks : state.Ranks source top less) (more : less ≤ rank) (most : rank ≤ top) :
    state.Ranks source top rank := by
  obtain ⟨tokens, ready, sound, descends, _, room⟩ := ranks
  exact ⟨tokens, ready, sound, descends.mono more, most, room⟩

theorem advanced (ranks : state.Ranks source top (rank + 1)) : state.advanced.Ranks source top rank := by
  obtain ⟨tokens, ready, sound, descends, most, room⟩ := ranks
  have precedes := state.precedes_advanced
  have live := precedes.lexer _ (fun _ => Lexer.Sound.next) sound
  have most : rank ≤ top := Nat.le_of_succ_le most
  obtain ⟨reads, deep, calm, space⟩ := ready
  cases descends with
  | last ended =>
    have stays := reads.advanced_of_eof (by rw [reads.current]; exact ended)
    exact ⟨_, ⟨stays, deep, calm, space⟩, live, .last ended, most, room⟩
  | more going above follows falls rest =>
    rename_i less token tokens
    have reads := reads.advanced (by rintro rfl; cases rest)
    exact ⟨tokens, ⟨reads, deep, calm, Nat.le_of_succ_le space⟩, live,
      rest.mono (by omega), most, room⟩

variable (ranks : state.Ranks source top rank)
include ranks

theorem calm : state.exhausted = false := by
  obtain ⟨tokens, ready, _⟩ := ranks
  exact ready.calm

theorem le_top : rank ≤ top := by
  obtain ⟨tokens, _, _, _, most, _⟩ := ranks
  exact most

theorem lt_budget : rank < state.budget := by
  obtain ⟨tokens, _, _, _, most, room⟩ := ranks
  omega

/-- Where an ordinary token stands, its line ranks no higher, and no layout but a line end follows. -/
theorem inLine (ordinary : state.current.kind.isOrdinary) :
    lineRank source state.current.position.line ≤ rank ∧
      (state.ahead.kind.isOrdinary = true ∨ state.ahead.kind = .newline) := by
  obtain ⟨tokens, ready, _, descends, _⟩ := ranks
  cases descends with
  | last ended =>
    rw [ready.reads.current, ended] at ordinary
    cases ordinary
  | @more _ _ _ tokens _ above follows _ rest =>
    rw [ready.reads.current] at ordinary ⊢
    cases tokens with
    | nil => cases rest
    | cons next tokens =>
      rw [ready.reads.ahead]
      exact ⟨above ordinary, follows ordinary next rfl⟩

theorem exists_pred (going : state.current.kind ≠ .eof) :
    ∃ less, rank = less + 1 := by
  obtain ⟨tokens, ready, _, descends, _⟩ := ranks
  cases descends with
  | last ended =>
    rw [ready.reads.current] at going
    exact absurd ended going
  | more => exact ⟨rank - 1, by omega⟩

theorem going (ahead : state.ahead.kind ≠ .eof) :
    state.current.kind ≠ .eof := by
  obtain ⟨tokens, ready, _⟩ := ranks
  exact fun ended => ahead (ready.reads.ahead_of_eof ended)

end State.Ranks

instance :
    Proceeds limit bound (modify fun state => { state with statementFaults := 0 } : Step Unit) :=
  proceeds_of_agrees fun _ => ⟨rfl, rfl, rfl, rfl, rfl, rfl⟩

/-- A step after which the parser ranks no higher than before. -/
class Settles (source : List Char) (top rank : Nat) {α : Type} (step : Step α) : Prop where
  ranks : ∀ {state : State}, state.Ranks source top rank → (step.run state).2.Ranks source top rank

section

variable {α β : Type} {next : α → Parse β}

/-- Going forward does not raise the rank. -/
instance (priority := low) {step : Step α} [forward : Proceeds 0 (rank + 1) step] :
    Settles source top rank step where
  ranks := by
    rintro state ⟨tokens, ready, sound, descends, most, room⟩
    obtain ⟨left, readyLeft, shorter, precedes⟩ := forward.leaves ready descends.length_le
    exact ⟨left, readyLeft, precedes.lexer _ (fun _ => Lexer.Sound.next) sound,
      descends.suffix shorter readyLeft.reads.ne_nil, most, by rw [precedes.budget]; exact room⟩

instance advance_settles : Settles source top rank advance := inferInstance

instance resetFaults_settles : Settles source top rank
    (modify fun state => { state with statementFaults := 0 } : Step Unit) :=
  inferInstance

instance {step : Step α} {next : α → Step β} [first : Settles source top rank step]
    [second : ∀ value, Settles source top rank (next value)] : Settles source top rank (step >>= next) :=
  ⟨fun ranks => (second _).ranks (first.ranks ranks)⟩

instance {result : Option α} [found : ∀ value, Settles source top rank (next value).run] :
    Settles source top rank (result.elim (pure none) fun value => (next value).run) := by
  cases result with
  | none => exact inferInstanceAs (Settles source top rank (pure none : Step (Option β)))
  | some value => exact found value

instance {parse : Parse α} [Settles source top rank parse.run]
    [∀ value, Settles source top rank (next value).run] :
    Settles source top rank (parse >>= next).run := by
  rw [OptionT.run_bind]
  exact inferInstanceAs (Settles source top rank (parse.run >>= fun result => result.elim _ _))

theorem settles_then {parse : Parse α} [Settles source top rank parse.run]
    (later : ∀ value, Settles source top rank (next value).run) :
    Settles source top rank (parse >>= next).run :=
  inferInstance

theorem settles_loop {loop : Nat → Parse α} [∀ count, Proceeds 0 count (loop count).run]
    (later : ∀ value, Settles source top rank (next value).run) :
    Settles source top rank (liftM turns >>= fun count => loop count >>= next).run := by
  rw [← bind_assoc]
  infer_instance

instance {loop : Nat → Parse α}
    [∀ count, Proceeds 0 count (loop count).run] [∀ value, Settles source top rank (next value).run] :
    Settles source top rank (liftM turns >>= fun count => loop count >>= next).run :=
  settles_loop fun _ => inferInstance

theorem turns_settles {parse : Nat → Parse α}
    (enough : ∀ count, rank < count → Settles source top rank (parse count).run) :
    Settles source top rank (liftM turns >>= parse).run :=
  ⟨fun {state} ranks => (enough state.budget ranks.lt_budget).ranks ranks⟩

theorem keywordAhead_settles {keyword : Keyword} {yes no : Parse α}
    (again : ∀ lower, rank = lower + 1 → Settles source top lower yes.run)
    [stop : Settles source top rank no.run] :
    Settles source top rank (liftM (keywordAhead keyword) >>= fun found =>
      if found = true then liftM advance >>= fun _ => yes else no).run where
  ranks ranks := by
    rw [run_lift_bind, run_bind, run_aheadIs]
    split
    · rename_i found
      have going := ranks.going (by rw [eq_of_beq found]; exact TokenKind.noConfusion)
      obtain ⟨lower, rfl⟩ := ranks.exists_pred going
      exact ((again lower rfl).ranks ranks.advanced).mono (Nat.le_succ _) ranks.le_top
    · exact stop.ranks ranks

instance {condition : Prop} [Decidable condition] {yes no : Parse α}
    [first : Settles source top rank yes.run] [second : Settles source top rank no.run] :
    Settles source top rank (if condition then yes else no).run := by
  split
  · exact first
  · exact second

end

/-- The state at the line end behind a statement on `line` that was left, going on with `stream`. -/
def State.resumed (state : State) (line : Nat) (stream : TokenStream) : State :=
  { state with
    stream := stream.next.2, ahead := stream.next.1
    current := { kind := .newline, position := { line, col := 0 } } }

theorem run_abandonBracket (start : Token) (state : State) :
    (abandonBracket start).run state =
      if (state.stream.resync start.position.line).1 then
        (true, state.resumed start.position.line (state.stream.resync start.position.line).2)
      else (false, state) := by
  have run : (abandonBracket start).run state = (if (state.stream.resync start.position.line).1 = true then
        set (state.resumed start.position.line (state.stream.resync start.position.line).2) >>=
          fun _ => pure (state.stream.resync start.position.line).1
      else pure (state.stream.resync start.position.line).1 : Step Bool).run state := rfl
  rw [run]
  split
  · rename_i moved
    rw [moved]
    rfl
  · rename_i stays
    rw [Bool.not_eq_true] at stays
    rw [stays]
    rfl

theorem resync_moved {stream : LiveStream} {line : Nat} (moved : ((live stream).resync line).1) :
    (live stream).resync line = (true, .live { lexer := stream.lexer.resumeAfter line }) := by
  unfold TokenStream.resync LiveStream.resync at moved ⊢
  dsimp only at moved ⊢
  split
  · rfl
  · rename_i outside
    simp [outside] at moved

theorem abandonBracket_ranks (ranks : state.Ranks source top rank)
    (above : lineRank source start.position.line ≤ rank) :
    ((abandonBracket start).run state).2.Ranks source top rank := by
  rw [run_abandonBracket]
  split
  · rename_i moved
    obtain ⟨tokens, ready, ⟨stream, live, sound⟩, _, most, room⟩ := ranks
    let lexer := stream.lexer.resumeAfter start.position.line
    rw [live] at moved
    rw [live, resync_moved moved]
    let after := state.resumed start.position.line (.live { lexer })
    have going : after.current.kind ≠ .eof := by simp [after, State.resumed]
    have yields := tokensWithin_yields (Nat.lt_succ_self (lexer.weight 3))
    have less := Nat.lt_of_lt_of_le (sound.weight_resumeAfter_lt start.position.line) above
    have reads : after.Reads (after.current :: _) :=
      .more going (.ofDelivers (live_delivers yields) rfl rfl rfl)
    have descends : Lexer.Descends source rank (after.current :: _) :=
      .more going (fun ordinary => by cases ordinary) (fun ordinary => by cases ordinary) less
        (yields.descends (sound.resumeAfter _))
    have on : after.OnLexer (Lexer.Sound source) := ⟨(next { lexer }).2, rfl,
      next_keeps (fun _ => Lexer.Sound.next) (sound.resumeAfter _)⟩
    have space := Nat.le_trans descends.length_le (Nat.lt_of_le_of_lt most room)
    exact ⟨_, ⟨reads, Nat.zero_le _, ready.calm, space⟩, on, descends, most, room⟩
  · exact ranks

instance (turns : Nat) : Proceeds limit turns (skipLine turns) := by
  induction turns with
  | zero => infer_instance
  | succ =>
    have guard : Guards current fun token =>
        (token.kind != .newline && token.kind != .eof) = true := by
      refine ⟨fun {state tokens} _ holds => ?_⟩
      exact bne_iff_ne.mp (Bool.and_eq_true_iff.mp holds).2
    unfold skipLine
    infer_instance

instance (turns level : Nat) : Proceeds limit turns (skipBlock turns level) := by
  induction turns generalizing level with
  | zero => infer_instance
  | succ turns ih =>
    refine ⟨fun {state tokens} ready few => ?_⟩
    unfold skipBlock
    rw [run_bind, run_current]
    dsimp only
    split
    · exact ready.leaves
    · rename_i kind
      exact Consumes.forward ready (by simp [kind]) few
    · rename_i kind
      split
      · exact ready.leaves
      · exact Consumes.forward ready (by simp [kind]) few
    · rename_i notEof _ _
      exact Consumes.forward ready notEof few

instance {α : Type} {next : Unit → Step α} [∀ bound value, Proceeds limit bound (next value)] :
    Proceeds limit bound (get >>= fun state => skipLine state.budget >>= next) :=
  inferInstanceAs (Proceeds limit bound (turns >>= fun count => skipLine count >>= next))

theorem simpleLine_ranks {turns : Nat}
    (above : lineRank source start.position.line ≤ rank) (ranks : state.Ranks source top less)
    (fewer : less ≤ rank) (most : rank ≤ top) (enough : less < turns) :
    ((simpleLine start turns).run state).2.Ranks source top rank := by
  induction turns generalizing state less with
  | zero => cases enough
  | succ turns ih =>
    have read : (simpleStmt.run.run state).2.Ranks source top less := Settles.ranks ranks
    unfold simpleLine
    rw [run_bind]
    split
    · have abandoned := abandonBracket_ranks (read.mono fewer most) above
      rw [run_bind]
      exact Settles.ranks abandoned
    · rw [run_bind, run_aheadIs]
      split
      · rename_i semicolon
        have going := read.going (by rw [eq_of_beq semicolon]; exact TokenKind.noConfusion)
        obtain ⟨pred, rfl⟩ := read.exists_pred going
        have later := read.advanced
        have bound : pred ≤ rank := Nat.le_of_succ_le fewer
        rw [run_bind, run_advance, run_bind, run_aheadIs]
        split
        · exact Settles.ranks (later.mono bound most)
        · rw [run_bind]
          exact ih (Settles.ranks later) bound (by omega)
      · exact Settles.ranks (read.mono fewer most)

theorem simpleStmts_ranks (ranks : state.Ranks source top rank) (ordinary : state.current.kind.isOrdinary) :
    (simpleStmts.run state).2.Ranks source top rank := by
  unfold simpleStmts
  rw [run_bind, run_current, run_bind, run_turns]
  exact simpleLine_ranks (ranks.inLine ordinary).1 ranks (Nat.le_refl _) ranks.le_top ranks.lt_budget

/-- Statements can be read from every state of this rank that is in front of a token. -/
def ReadsAt (source : List Char) (top rank : Nat) (read : ReadStmts) : Prop :=
  ∀ {state : State}, state.Ranks source top rank → state.current.kind ≠ .eof →
    (read.run state).2.Ranks source top rank

theorem blockStmts_ranks {turns : Nat}
    (reads : ∀ lower ≤ rank, ReadsAt source top lower read) (ranks : state.Ranks source top rank)
    (enough : rank < turns) : ((blockStmts read turns).run state).2.Ranks source top rank := by
  induction turns generalizing state rank with
  | zero => cases enough
  | succ turns ih =>
    unfold blockStmts
    rw [run_bind, run_current]
    dsimp only
    split
    · exact ranks
    · rename_i inside
      have going : state.current.kind ≠ .eof := by
        intro ended
        simp [ended] at inside
      have first := reads rank (Nat.le_refl _) ranks going
      obtain ⟨pred, rfl⟩ := ranks.exists_pred going
      have rest := ih (fun lower le => reads lower (by omega)) first.advanced
        (by omega)
      exact rest.mono (Nat.le_succ _) ranks.le_top

theorem block_ranks (reads : ∀ lower ≤ rank, ReadsAt source top lower read)
    (ranks : state.Ranks source top rank) (ordinary : state.current.kind.isOrdinary) :
    ((block read).run.run state).2.Ranks source top rank := by
  have moved : state.advanced.Ranks source top rank := advance_settles.ranks ranks
  unfold block
  rw [run_lift_bind, run_bind, run_aheadIs]
  split
  · rw [run_lift_bind, run_bind, run_advance, run_lift_bind, run_bind, run_aheadIs]
    split
    · have inside : state.advanced.advanced.advanced.Ranks source top rank :=
        advance_settles.ranks (advance_settles.ranks moved)
      exact blockStmts_ranks reads inside inside.lt_budget
    · exact Settles.ranks moved
  · rename_i elsewhere
    have first : state.advanced.current.kind.isOrdinary = true := by
      rcases (ranks.inLine ordinary).2 with follows | newline
      · exact follows
      · simp [newline] at elsewhere
    have line := simpleStmts_ranks moved first
    rw [run_lift_bind, run_bind, run_advance, run_lift_bind, run_bind]
    exact Settles.ranks line

/-- Statements can be read in front of every token of a rank below this one. -/
class ReadsBelow (source : List Char) (top rank : Nat) (read : ReadStmts) : Prop where
  reads : ∀ lower < rank, ReadsAt source top lower read

theorem ReadsBelow.mono (below : ReadsBelow source top rank read)
    (fewer : less ≤ rank) : ReadsBelow source top less read :=
  ⟨fun lower lt => below.reads lower (by omega)⟩

section

variable {read : ReadStmts} [below : ReadsBelow source top rank read]

/-- The colon is a token in front of the block, so the block ranks below what stands before it. -/
instance : Settles source top rank (blockAfterColon read).run where
  ranks {state} ranks := by
    rw [OptionT.run_bind, Option.elimM, run_bind, run_expect]
    split
    · rename_i colon
      have kind := eq_of_beq colon
      obtain ⟨lower, rfl⟩ := ranks.exists_pred (ranks.going (by rw [kind]; exact TokenKind.noConfusion))
      have ordinary : state.advanced.current.kind.isOrdinary = true := by
        show state.ahead.kind.isOrdinary = true
        rw [kind]
        rfl
      have inside := block_ranks (fun lower le => below.reads lower (by omega))
        ranks.advanced ordinary
      exact inside.mono (Nat.le_succ _) ranks.le_top
    · exact (inferInstance : Settles source top rank (recordMissing (.symbol .colon))).ranks ranks

theorem ifStmt_settles {turns : Nat} (enough : rank < turns) :
    Settles source top rank (ifStmt read turns).run := by
  induction turns generalizing rank with
  | zero => cases enough
  | succ turns ih =>
    refine settles_then fun mark => settles_then fun _ => settles_then fun test =>
      settles_then fun body => keywordAhead_settles fun lower above => ?_
    have lowerBelow := below.mono (by omega : lower ≤ rank)
    have rest := ih (by omega : lower < turns)
    infer_instance

instance : Proceeds limit bound withItem.run := by
  refine proceeds_then fun _ => proceeds_then fun context => proceeds_then fun written => ?_
  split <;> infer_instance

instance : Settles source top rank (handler read).run := by
  refine settles_then fun mark => settles_then fun star => ?_
  split
  · refine settles_then fun _ => settles_then fun clause => ?_
    infer_instance
  · refine settles_then fun clause => ?_
    infer_instance

theorem handlers_settles {turns : Nat} (enough : rank < turns) :
    Settles source top rank (handlers read turns).run := by
  induction turns generalizing rank with
  | zero => cases enough
  | succ turns ih =>
    simp only [itemsWhile, bind_assoc]
    refine keywordAhead_settles fun lower above => ?_
    have lowerBelow := below.mono (by omega : lower ≤ rank)
    have rest := ih (by omega : lower < turns)
    infer_instance

instance : Settles source top rank (tryStmt read).run := by
  refine settles_then fun mark => settles_then fun body => turns_settles fun count enough => ?_
  have caught : Settles source top rank (handlers read count).run := handlers_settles enough
  infer_instance

instance : Settles source top rank (decorated read).run := by
  have guard : Guards (currentIs (.symbol .atSign)) (· = true) := guards_currentIs TokenKind.noConfusion
  refine settles_loop fun decorators => settles_then fun token => ?_
  split <;> infer_instance

instance : Settles source top rank (asyncStmt read).run := by
  refine settles_then fun _ => settles_then fun token => ?_
  split <;> infer_instance

theorem compound?_settles {kind : TokenKind} {compound : Parse Stmt}
    (found : compound? read kind = some compound) : Settles source top rank compound.run := by
  have branch : Settles source top rank (liftM turns >>= ifStmt read).run :=
    turns_settles fun count enough => ifStmt_settles enough
  unfold compound? at found
  split at found <;> cases found
  all_goals infer_instance

end

theorem statementWith_readsAt (below : ReadsBelow source top rank read) :
    ReadsAt source top rank (statementWith read) := by
  intro state ranks going
  have ranks := resetFaults_settles.ranks ranks
  unfold statementWith
  rw [run_bind, run_bind, run_current]
  split
  · exact ranks
  · exact ranks
  · exact ranks
  · exact Settles.ranks ranks
  · rename_i newline _ dedent indent
    have ordinary := TokenKind.isOrdinary_of_ne newline indent dedent going
    split
    · exact simpleStmts_ranks ranks ordinary
    · rename_i compound found
      have settles : Settles source top rank compound.run := compound?_settles found
      have read := settles.ranks ranks
      rw [run_bind]
      split
      · exact read
      · rw [run_bind]
        have abandoned := abandonBracket_ranks read (ranks.inLine ordinary).1
        exact Settles.ranks abandoned

end Stubwise.Parser
