import Stubwise.Proofs.Parser.Supply

/-!
Steps that go forward. A step `Proceeds` if it only takes tokens off the front of what there is to
read and no loop in it runs out of turns.
-/

namespace Stubwise.Parser

open List TokenStream

namespace State

variable {limit : Nat} {state other : State} {tokens left : List Token}

def OnLexer (holds : Lexer → Prop) (state : State) : Prop :=
  ∃ stream, state.stream = .live stream ∧ holds stream.lexer

/-- A state from which every loop has enough turns, with at least `limit` open expressions. -/
structure Ready (limit : Nat) (state : State) (tokens : List Token) : Prop where
  reads : state.Reads tokens
  deep : limit ≤ state.depth
  calm : state.exhausted = false
  room : tokens.length ≤ state.budget

/-- What later states have in common with an earlier one. An expression that is refused stays
counted as open, so the count may only grow. -/
structure Precedes (state other : State) : Prop where
  budget : other.budget = state.budget
  depth : state.depth ≤ other.depth
  lexer : ∀ holds : Lexer → Prop, (∀ lexer, holds lexer → holds lexer.next.2) →
    state.OnLexer holds → other.OnLexer holds

theorem Precedes.refl (state : State) : state.Precedes state := ⟨rfl, Nat.le_refl _, fun _ _ on => on⟩

theorem Precedes.trans {third : State} (first : state.Precedes other)
    (second : other.Precedes third) : state.Precedes third where
  budget := second.budget.trans first.budget
  depth := Nat.le_trans first.depth second.depth
  lexer holds keeps on := second.lexer holds keeps (first.lexer holds keeps on)

/-- The parts of the state that decide what is read and how long loops run are untouched. -/
structure Agrees (state other : State) : Prop where
  stream : other.stream = state.stream
  current : other.current = state.current
  ahead : other.ahead = state.ahead
  depth : other.depth = state.depth
  budget : other.budget = state.budget
  exhausted : other.exhausted = state.exhausted

theorem Agrees.precedes (same : state.Agrees other) : state.Precedes other where
  budget := same.budget
  depth := Nat.le_of_eq same.depth.symm
  lexer := by
    rintro holds - ⟨stream, live, on⟩
    exact ⟨stream, same.stream.trans live, on⟩

theorem Agrees.ready (same : state.Agrees other) (ready : state.Ready limit tokens) :
    other.Ready limit tokens where
  reads := ready.reads.congr same.current same.ahead (congrArg _ same.stream)
  deep := by rw [same.depth]; exact ready.deep
  calm := same.exhausted.trans ready.calm
  room := by rw [same.budget]; exact ready.room

theorem precedes_advanced (state : State) : state.Precedes state.advanced where
  budget := rfl
  depth := Nat.le_refl _
  lexer := by
    rintro holds keeps ⟨stream, live, on⟩
    exact ⟨stream.next.2, by simp only [advanced, live, TokenStream.next], LiveStream.next_keeps keeps on⟩

theorem Ready.advanced (ready : state.Ready limit tokens) :
    ∃ left, state.advanced.Ready limit left ∧ left <:+ tokens ∧
      (state.current.kind ≠ .eof → left.length < tokens.length) := by
  obtain ⟨reads, deep, calm, room⟩ := ready
  by_cases ended : state.current.kind = .eof
  · exact ⟨tokens, ⟨reads.advanced_of_eof ended, deep, calm, room⟩, suffix_refl _,
      fun going => absurd ended going⟩
  · cases reads with
    | last stop => exact absurd stop ended
    | more _ rest =>
      refine ⟨_, ⟨rest, deep, calm, ?_⟩, suffix_cons .., fun _ => by simp⟩
      exact Nat.le_of_succ_le room

/-- From `state`, with `tokens` to read, the parser has come to `after` by going forward. -/
def Leaves (limit : Nat) (state : State) (tokens : List Token) (after : State) : Prop :=
  ∃ left, after.Ready limit left ∧ left <:+ tokens ∧ state.Precedes after

theorem Ready.leaves (ready : state.Ready limit tokens) : state.Leaves limit tokens state :=
  ⟨tokens, ready, suffix_refl _, .refl state⟩

theorem Agrees.leaves (same : state.Agrees other) (ready : state.Ready limit tokens) :
    state.Leaves limit tokens other :=
  ⟨tokens, same.ready ready, suffix_refl _, same.precedes⟩

theorem Leaves.trans {after : State} (first : state.Leaves limit tokens other)
    (second : ∀ {left}, other.Ready limit left → left.length ≤ tokens.length →
      other.Leaves limit left after) : state.Leaves limit tokens after := by
  obtain ⟨middle, ready, shorter, precedes⟩ := first
  obtain ⟨left, readyLeft, shortest, follows⟩ := second ready shorter.length_le
  exact ⟨left, readyLeft, shortest.trans shorter, precedes.trans follows⟩

theorem Reads.ahead_of_eof (reads : state.Reads tokens) (ended : state.current.kind = .eof) :
    state.ahead.kind = .eof := by
  cases reads with
  | last _ ahead => rw [ahead, ended]
  | more going => exact absurd ended going

end State

/-- From every state with at most `bound` tokens to read, the step ends in a state that has some of
the last of them to read, and every loop in it ends by itself. -/
class Proceeds (limit bound : Nat) {α : Type} (step : Step α) : Prop where
  leaves : ∀ {state : State} {tokens : List Token}, state.Ready limit tokens →
    tokens.length ≤ bound → state.Leaves limit tokens (step.run state).2

section Steps

variable {limit bound : Nat} {α β : Type} {step : Step α}

instance {next : α → Step β} [first : Proceeds limit bound step]
    [second : ∀ value, Proceeds limit bound (next value)] :
    Proceeds limit bound (step >>= next) where
  leaves {state _} ready few := by
    exact (first.leaves ready few).trans fun ready fewer =>
      (second (step.run state).1).leaves ready (by omega)

instance {condition : Prop} [Decidable condition] {yes no : Step α}
    [first : Proceeds limit bound yes] [second : Proceeds limit bound no] :
    Proceeds limit bound (if condition then yes else no) := by
  split
  · exact first
  · exact second

theorem proceeds_of_agrees
    (same : ∀ state : State, state.Agrees (step.run state).2) : Proceeds limit bound step :=
  ⟨fun ready _ => (same _).leaves ready⟩

instance : Proceeds limit bound advance where
  leaves {state _} ready few := by
    obtain ⟨left, readyLeft, shorter, _⟩ := ready.advanced
    exact ⟨left, readyLeft, shorter, state.precedes_advanced⟩

instance : Proceeds limit bound kindAfterAhead where
  leaves {state tokens} ready few := by
    refine ⟨tokens, ⟨ready.reads.congr rfl rfl (next_peek _), ready.deep, ready.calm,
      ready.room⟩, suffix_refl _, ⟨rfl, Nat.le_refl _, ?_⟩⟩
    rintro holds keeps ⟨stream, live, on⟩
    refine ⟨(stream.peek 1).2, ?_, ?_⟩
    · show (state.stream.peek 1).2 = _
      rw [live]
      rfl
    · rcases stream.peek_lexer with same | moved
      · rw [same]
        exact on
      · rw [moved]
        exact keeps _ on

theorem Looks.agrees (looks : Looks step) (state : State) : state.Agrees (step.run state).2 := by
  obtain ⟨_, same⟩ := looks.same state
  rw [same]
  exact ⟨rfl, rfl, rfl, rfl, rfl, rfl⟩

instance [looks : Looks step] : Proceeds limit bound step := proceeds_of_agrees looks.agrees

instance record_proceeds (code : Code) (token : Token) (message : String) :
    Proceeds limit bound (record code token message) :=
  proceeds_of_agrees fun _ => ⟨rfl, rfl, rfl, rfl, rfl, rfl⟩

instance (kind : TokenKind) : Proceeds limit bound (tryExpect kind) := by
  unfold tryExpect
  infer_instance

end Steps

section Parses

variable {limit bound : Nat} {α β : Type} {next : α → Parse β} {parse : Parse α}

instance (value : α) : Proceeds limit bound (pure value : Parse α).run :=
  inferInstanceAs (Proceeds limit bound (pure (some value) : Step (Option α)))

instance : Proceeds limit bound (failure : Parse α).run :=
  inferInstanceAs (Proceeds limit bound (pure none : Step (Option α)))

instance {step : Step α} [Proceeds limit bound step] :
    Proceeds limit bound (liftM step : Parse α).run :=
  inferInstanceAs (Proceeds limit bound (step >>= fun value => pure (some value)))

instance {result : Option α} [found : ∀ value, Proceeds limit bound (next value).run] :
    Proceeds limit bound (result.elim (pure none) fun value => (next value).run) := by
  cases result with
  | none => exact inferInstanceAs (Proceeds limit bound (pure none : Step (Option β)))
  | some value => exact found value

instance [Proceeds limit bound parse.run] [∀ value, Proceeds limit bound (next value).run] :
    Proceeds limit bound (parse >>= next).run := by
  rw [OptionT.run_bind]
  exact inferInstanceAs (Proceeds limit bound (parse.run >>= fun result => result.elim _ _))

theorem proceeds_then [Proceeds limit bound parse.run]
    (later : ∀ value, Proceeds limit bound (next value).run) :
    Proceeds limit bound (parse >>= next).run :=
  inferInstance

instance {change : α → β} [Proceeds limit bound parse.run] : Proceeds limit bound (change <$> parse).run := by
  rw [map_eq_pure_bind]
  infer_instance

instance {condition : Prop} [Decidable condition] {yes no : Parse α}
    [first : Proceeds limit bound yes.run] [second : Proceeds limit bound no.run] :
    Proceeds limit bound (if condition then yes else no).run := by
  split
  · exact first
  · exact second

instance (code : Code) (token : Token) (message : String) :
    Proceeds limit bound (reject code token message : Parse α).run := by
  unfold reject
  infer_instance

instance (token : Token) : Proceeds limit bound (unexpected token : Parse α).run := by
  unfold unexpected
  infer_instance

instance (kind : TokenKind) : Proceeds limit bound (expect kind).run := by
  unfold expect
  infer_instance

/-- A loop that is given the turns of the state has enough of them. -/
instance (priority := high) {step : Nat → Step α} [enough : ∀ count, Proceeds limit count (step count)] :
    Proceeds limit bound (turns >>= step) where
  leaves {state _} ready _ := by
    exact (enough state.budget).leaves ready ready.room

instance (priority := high) {parse : Nat → Parse α} [∀ count, Proceeds limit count (parse count).run] :
    Proceeds limit bound (liftM turns >>= parse).run :=
  inferInstanceAs (Proceeds limit bound (turns >>= fun count => (parse count).run))

end Parses

section Loops

variable {limit bound : Nat} {α β : Type} {accepts : α → Prop} {step : Step α} {kind : TokenKind}
  {item : Parse α}

instance : Proceeds limit 0 step where
  leaves ready none := by
    exact absurd (eq_nil_of_length_eq_zero (by omega)) ready.reads.ne_nil

/-- From every state in front of `eof` the step takes at least one token. -/
class Consumes (limit bound : Nat) {α : Type} (step : Step α) : Prop where
  leaves : ∀ {state : State} {tokens : List Token}, state.Ready limit tokens →
    state.current.kind ≠ .eof → tokens.length ≤ bound + 1 →
    ∃ left, (step.run state).2.Ready limit left ∧ left <:+ tokens ∧ left.length ≤ bound ∧
      state.Precedes (step.run state).2

theorem Consumes.forward [consumes : Consumes limit bound step] {state : State}
    {tokens : List Token} (ready : state.Ready limit tokens) (going : state.current.kind ≠ .eof)
    (few : tokens.length ≤ bound + 1) : state.Leaves limit tokens (step.run state).2 := by
  obtain ⟨left, readyLeft, shorter, _, precedes⟩ := consumes.leaves ready going few
  exact ⟨left, readyLeft, shorter, precedes⟩

/-- A test whose answer is not accepted where nothing is left but `eof`. -/
class Guards {α : Type} (test : Step α) (accepts : α → Prop) : Prop where
  going : ∀ {state : State} {tokens : List Token}, state.Reads tokens →
    accepts (test.run state).1 → (test.run state).2.current.kind ≠ .eof

instance : Consumes limit bound advance where
  leaves {state _} ready going few := by
    obtain ⟨left, readyLeft, shorter, fewer⟩ := ready.advanced
    have less := fewer going
    exact ⟨left, readyLeft, shorter, by omega, state.precedes_advanced⟩

instance {next : α → Step β} [first : Consumes limit bound step]
    [second : ∀ value, Proceeds limit bound (next value)] :
    Consumes limit bound (step >>= next) where
  leaves {state _} ready going few := by
    obtain ⟨middle, readyMiddle, shorter, fewer, precedes⟩ := first.leaves ready going few
    obtain ⟨left, readyLeft, shortest, follows⟩ := (second (step.run state).1).leaves readyMiddle fewer
    exact ⟨left, readyLeft, shortest.trans shorter, Nat.le_trans shortest.length_le fewer,
      precedes.trans follows⟩

instance [Consumes limit bound step] : Consumes limit bound (liftM step : Parse α).run :=
  inferInstanceAs (Consumes limit bound (step >>= fun value => pure (some value)))

instance {parse : Parse α} {next : α → Parse β} [Consumes limit bound parse.run]
    [∀ value, Proceeds limit bound (next value).run] :
    Consumes limit bound (parse >>= next).run := by
  rw [OptionT.run_bind]
  exact inferInstanceAs (Consumes limit bound (parse.run >>= fun result => result.elim _ _))

/-- A loop goes round only in front of a token, and takes it. -/
instance {test : Step α} [DecidablePred accepts]
    {yes no : Step β} [guard : Guards test accepts] [tests : Proceeds limit (bound + 1) test]
    [again : Consumes limit bound yes] [stop : Proceeds limit (bound + 1) no] :
    Proceeds limit (bound + 1) (test >>= fun answer => if accepts answer then yes else no) where
  leaves ready few := by
    refine (tests.leaves ready few).trans fun {middle} readyMiddle fewer => ?_
    have few := Nat.le_trans fewer few
    rw [run_bind]
    split
    · rename_i accepted
      exact again.forward readyMiddle (guard.going ready.reads accepted) few
    · exact stop.leaves readyMiddle few

instance {test : Step α} [DecidablePred accepts]
    {yes no : Parse β} [Guards test accepts] [Proceeds limit (bound + 1) test]
    [Consumes limit bound yes.run] [Proceeds limit (bound + 1) no.run] :
    Proceeds limit (bound + 1) (liftM test >>= fun answer => if accepts answer then yes else no).run := by
  have split (answer : α) : (if accepts answer then yes else no).run =
      if accepts answer then yes.run else no.run := by
    split <;> rfl
  simp only [run_lift_bind, split]
  infer_instance

theorem guards_of_ahead {test : Step α} (stays : ∀ state : State, (test.run state).2.current = state.current)
    (shows : ∀ state : State, accepts (test.run state).1 → state.ahead.kind ≠ .eof) :
    Guards test accepts where
  going {state _} reads accepted ended := by
    rw [stays] at ended
    exact shows state accepted (reads.ahead_of_eof ended)

theorem guards_aheadIs (other : kind ≠ .eof) : Guards (aheadIs kind) (· = true) :=
  guards_of_ahead (fun _ => rfl) fun state holds last =>
    have found : state.ahead.kind = kind := eq_of_beq holds
    other (found.symm.trans last)

theorem guards_currentIs (other : kind ≠ .eof) : Guards (currentIs kind) (· = true) where
  going {state _} _ holds ended := by
    have found : state.current.kind = kind := eq_of_beq holds
    exact other (found.symm.trans ended)

/-- The kind of a token that ends neither a line nor the text. -/
class Inner (kind : TokenKind) : Prop where
  line : kind ≠ .newline := by exact TokenKind.noConfusion
  text : kind ≠ .eof := by exact TokenKind.noConfusion

instance (symbol : Symbol) : Inner (.symbol symbol) := {}

instance (keyword : Keyword) : Inner (.keyword keyword) := {}

instance : Inner .ident := {}

instance : Inner .augAssign := {}

instance : Inner .string := {}

instance : Inner .fstring := {}

instance : Inner .bytes := {}

/-- A test whose answer is accepted only where the token ahead ends nothing. -/
class ShowsAhead (test : Step α) (accepts : α → Prop) : Prop where
  stays : ∀ state : State, (test.run state).2.current = state.current ∧
    (test.run state).2.ahead = state.ahead
  inner : ∀ {state : State}, accepts (test.run state).1 → Inner state.ahead.kind

instance {test : Step α} [shows : ShowsAhead test accepts] : Guards test accepts :=
  guards_of_ahead (fun state => (shows.stays state).1) fun _ accepted => (shows.inner accepted).text

instance aheadIs_shows [inner : Inner kind] : ShowsAhead (aheadIs kind) (· = true) where
  stays _ := ⟨rfl, rfl⟩
  inner {state} holds := (eq_of_beq holds : state.ahead.kind = kind) ▸ inner

instance {kind other : TokenKind} [Inner kind] [Inner other] :
    ShowsAhead (eitherAhead kind other) (· = true) where
  stays _ := ⟨rfl, rfl⟩
  inner {state} holds := by
    rcases Bool.or_eq_true_iff.mp holds with found | found
    · rwa [show state.ahead.kind = kind from eq_of_beq found]
    · rwa [show state.ahead.kind = other from eq_of_beq found]

instance [∀ bound, Proceeds limit bound item.run] (stops : TokenKind → Bool) (turns : Nat) :
    Proceeds limit turns (itemsAfterCommas stops item turns).run := by
  induction turns with
  | zero => infer_instance
  | succ =>
    unfold itemsAfterCommas
    infer_instance

variable {test : Step Bool} [Guards test (· = true)] [∀ bound, Proceeds limit bound test]

instance [∀ bound, Consumes limit bound item.run] (turns : Nat) :
    Proceeds limit turns (itemsWhile test item turns).run := by
  induction turns with
  | zero => infer_instance
  | succ =>
    unfold itemsWhile
    infer_instance

instance [∀ bound, Proceeds limit bound item.run] (turns : Nat) :
    Proceeds limit turns (itemsBetween test item turns).run := by
  induction turns with
  | zero => infer_instance
  | succ =>
    unfold itemsBetween
    infer_instance

instance {add : α → Token → α} (turns : Nat) (soFar : α) :
    Proceeds limit turns (tokensWhile test add turns soFar).run := by
  induction turns generalizing soFar with
  | zero => infer_instance
  | succ =>
    unfold tokensWhile
    infer_instance

end Loops

end Stubwise.Parser
