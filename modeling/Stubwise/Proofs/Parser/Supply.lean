import Stubwise.Parser
import Stubwise.Proofs.Lexer.Progress

namespace Stubwise

open List

variable {rest tokens : List Token} {stream : LiveStream} {token : Token}

namespace LiveStream

theorem fill_one (stream : LiveStream) :
    stream.fill 1 = if stream.buffer = [] then stream.fetch else stream := by
  cases shape : stream.buffer <;> simp [fill, shape, Nat.repeat]

theorem fetch_buffer (stream : LiveStream) (empty : stream.buffer = []) :
    (stream.fetch.buffer = [] ∧ stream.fetch = stream) ∨ stream.fetch.buffer ≠ [] := by
  unfold fetch
  split
  · exact .inl ⟨empty, rfl⟩
  · exact .inr (by simp)

theorem fill_fill (stream : LiveStream) : (stream.fill 1).fill 1 = stream.fill 1 := by
  rw [fill_one stream]
  split
  · rename_i empty
    rw [fill_one]
    rcases fetch_buffer stream empty with ⟨still, same⟩ | some
    · rw [if_pos still, same, same]
    · rw [if_neg some]
  · rename_i some
    rw [fill_one, if_neg some]

theorem next_fill (stream : LiveStream) : (stream.fill 1).next = stream.next := by
  simp only [next, fill_fill]

theorem next_of_buffer (filled : (stream.fill 1).buffer = token :: rest) :
    stream.next = if token.kind == .eof then (token, stream.fill 1)
      else (token, { stream.fill 1 with buffer := rest }) := by
  simp only [next, filled]

theorem next_of_empty (filled : (stream.fill 1).buffer = []) :
    stream.next = (.endOfInput, stream.fill 1) := by
  simp only [next, filled]

theorem next_of_eof (ended : stream.next.1.kind = .eof) : stream.next.2.next = stream.next := by
  have stays : stream.next.2 = stream.fill 1 := by
    cases filled : (stream.fill 1).buffer with
    | nil => rw [next_of_empty filled]
    | cons token rest =>
      rw [next_of_buffer filled] at ended ⊢
      split at ended
      · rename_i last
        rw [if_pos last]
      · rename_i going
        exact absurd (beq_iff_eq.mpr ended) going
  rw [stays, next_fill]

theorem peek_lexer (stream : LiveStream) :
    (stream.peek 1).2.lexer = stream.lexer ∨ (stream.peek 1).2.lexer = stream.lexer.next.2 := by
  show (stream.fill 1).lexer = _ ∨ (stream.fill 1).lexer = _
  rw [fill_one]
  split
  · unfold fetch
    split
    · exact .inl rfl
    · exact .inr rfl
  · exact .inl rfl

theorem next_lexer (stream : LiveStream) :
    stream.next.2.lexer = stream.lexer ∨ stream.next.2.lexer = stream.lexer.next.2 := by
  have same : stream.next.2.lexer = (stream.fill 1).lexer := by
    cases shape : (stream.fill 1).buffer with
    | nil => rw [next_of_empty shape]
    | cons token rest =>
      rw [next_of_buffer shape]
      split <;> rfl
  rw [same]
  exact peek_lexer stream

theorem next_keeps {holds : Lexer → Prop} (keeps : ∀ lexer, holds lexer → holds lexer.next.2)
    (on : holds stream.lexer) : holds stream.next.2.lexer := by
  rcases stream.next_lexer with same | moved
  · rw [same]
    exact on
  · rw [moved]
    exact keeps _ on

end LiveStream

namespace TokenStream

theorem next_of_eof {stream : TokenStream} (ended : stream.next.1.kind = .eof) :
    stream.next.2.next = stream.next := by
  cases stream with
  | live stream =>
    have same : stream.next.2.next = stream.next := LiveStream.next_of_eof ended
    simp only [next, same]
  | replay list =>
    cases shape : list.tokens with
    | nil => simp [next, Replay.next, shape]
    | cons token rest =>
      have kind : token.kind = .eof := by
        simp only [next, Replay.next, shape] at ended
        split at ended
        · exact ended
        · exact ended
      simp [next, Replay.next, shape, kind]

theorem next_peek (stream : TokenStream) : (stream.peek 1).2.next = stream.next := by
  cases stream with
  | live stream =>
    have same : (stream.peek 1).2.next = stream.next := LiveStream.next_fill stream
    simp only [peek, next, same]
  | replay => rfl

theorem peek_kind (stream : TokenStream) :
    ((stream.peek 1).1.head?.map (·.kind)).getD .eof = stream.next.1.kind := by
  cases stream with
  | live stream =>
    show (((stream.fill 1).buffer.take 1).head?.map (·.kind)).getD .eof = stream.next.1.kind
    cases shape : (stream.fill 1).buffer with
    | nil =>
      rw [LiveStream.next_of_empty shape]
      rfl
    | cons token rest =>
      rw [LiveStream.next_of_buffer shape]
      split <;> rfl
  | replay list =>
    show ((list.tokens.take 1).head?.map (·.kind)).getD .eof = list.next.1.kind
    unfold Replay.next
    cases list.tokens with
    | nil => rfl
    | cons =>
      simp only [take_succ_cons, head?_cons, Option.map_some, Option.getD_some]
      split <;> rfl

/-- The stream delivers these tokens, up to and with the first `eof`. -/
inductive Delivers : TokenStream → List Token → Prop where
  | last {stream : TokenStream} (ended : stream.next.1.kind = .eof) :
      Delivers stream [stream.next.1]
  | more {stream : TokenStream} {tokens : List Token} (going : stream.next.1.kind ≠ .eof)
      (rest : Delivers stream.next.2 tokens) : Delivers stream (stream.next.1 :: tokens)

theorem Delivers.ofEof {stream rest : TokenStream}
    (step : stream.next = (token, rest)) (ended : token.kind = .eof) :
    Delivers stream [token] := by
  have first : stream.next.1 = token := by rw [step]
  rw [← first] at ended ⊢
  exact .last ended

theorem Delivers.ofNext {stream rest : TokenStream}
    (step : stream.next = (token, rest)) (going : token.kind ≠ .eof)
    (others : Delivers rest tokens) : Delivers stream (token :: tokens) := by
  have first : stream.next.1 = token := by rw [step]
  rw [← first] at going ⊢
  exact .more going (by rw [step]; exact others)

theorem live_delivers {lexer : Lexer} (yields : lexer.Yields tokens) : Delivers (.live { lexer }) tokens := by
  have fresh (lexer : Lexer) : (live { lexer }).next =
      if lexer.next.1.kind == .eof then
        (lexer.next.1, .live { lexer := lexer.next.2, buffer := [lexer.next.1], ended := true })
      else (lexer.next.1, .live { lexer := lexer.next.2 }) := by
    cases ended : lexer.next.1.kind == .eof <;>
      simp [next, LiveStream.next, LiveStream.fill_one, LiveStream.fetch, ended]
  induction yields with
  | @last lexer ended =>
    have step := fresh lexer
    rw [if_pos (beq_iff_eq.mpr ended)] at step
    exact .ofEof step ended
  | @more lexer tokens going rest ih =>
    have step := fresh lexer
    rw [if_neg (by simpa using going)] at step
    exact .ofNext step going ih

theorem replay_delivers {body : List Token} {eof : Token} (ended : eof.kind = .eof)
    (going : ∀ token ∈ body, token.kind ≠ .eof) :
    Delivers (.replay ⟨body ++ [eof]⟩) (body ++ [eof]) := by
  induction body with
  | nil =>
    have step : (replay ⟨[eof]⟩).next = (eof, .replay ⟨[eof]⟩) := by
      simp [next, Replay.next, ended]
    exact .ofEof step ended
  | cons token body ih =>
    have other : token.kind ≠ .eof := going token (by simp)
    have step : (replay ⟨token :: (body ++ [eof])⟩).next = (token, .replay ⟨body ++ [eof]⟩) := by
      simp [next, Replay.next, other]
    exact .ofNext step other (ih fun token member => going token (by simp [member]))

end TokenStream

namespace Parser

namespace State

variable {state other : State} {tokens : List Token}

def advanced (state : State) : State :=
  { state with
    stream := state.stream.next.2, current := state.ahead, ahead := state.stream.next.1 }

/-- The tokens that the parser has still to read, from the current one to `eof`, which repeats. -/
inductive Reads : State → List Token → Prop where
  | last {state : State} (ended : state.current.kind = .eof) (ahead : state.ahead = state.current)
      (stream : state.stream.next.1 = state.current) : Reads state [state.current]
  | more {state : State} {tokens : List Token} (going : state.current.kind ≠ .eof)
      (rest : Reads state.advanced tokens) : Reads state (state.current :: tokens)

namespace Reads

theorem congr (reads : state.Reads tokens) (current : other.current = state.current := by rfl)
    (ahead : other.ahead = state.ahead := by rfl)
    (stream : other.stream.next = state.stream.next := by rfl) :
    other.Reads tokens := by
  induction reads generalizing other with
  | last ended same next =>
    rw [← current]
    exact .last (by rw [current]; exact ended) (by rw [ahead, current]; exact same)
      (by rw [stream, current]; exact next)
  | more going rest ih =>
    rw [← current]
    refine .more (by rw [current]; exact going) (ih ahead ?_ ?_)
    · exact congrArg Prod.fst stream
    · exact congrArg (fun pair => pair.2.next) stream

theorem ne_nil (reads : state.Reads tokens) : tokens ≠ [] := by
  cases reads <;> simp

theorem current (reads : state.Reads (token :: rest)) : state.current = token := by
  cases reads <;> rfl

theorem ahead {first second : Token}
    (reads : state.Reads (first :: second :: rest)) : state.ahead = second := by
  cases reads with
  | more _ rest => exact rest.current

theorem advanced (reads : state.Reads (token :: rest)) (some : rest ≠ []) : state.advanced.Reads rest := by
  cases reads with
  | last => exact absurd rfl some
  | more _ rest => exact rest

theorem advanced_of_eof (reads : state.Reads tokens) (ended : state.current.kind = .eof) :
    state.advanced.Reads tokens := by
  cases reads with
  | last _ ahead stream =>
    rw [← ahead]
    refine .last (by rw [← ahead] at ended; exact ended) ?_ ?_
    · rw [← ahead] at stream
      exact stream
    · have kind : state.stream.next.1.kind = .eof := by rw [stream]; exact ended
      show state.stream.next.2.next.1 = state.ahead
      rw [TokenStream.next_of_eof kind, stream, ahead]
  | more going => exact absurd ended going

theorem ofDelivers {stream : TokenStream} (delivers : stream.Delivers tokens)
    (current : state.current = stream.next.1) (ahead : state.ahead = stream.next.2.next.1)
    (rest : state.stream = stream.next.2.next.2) : state.Reads tokens := by
  induction delivers generalizing state with
  | last ended =>
    have stays := TokenStream.next_of_eof ended
    rw [← current]
    refine .last (by rw [current]; exact ended) ?_ ?_
    · rw [ahead, current, stays]
    · rw [rest, current, stays, stays]
  | more going others ih =>
    rw [← current]
    refine .more (by rw [current]; exact going) (ih ahead ?_ ?_)
    · show state.stream.next.1 = _
      rw [rest]
    · show state.stream.next.2 = _
      rw [rest]

theorem start {stream : TokenStream} (delivers : stream.Delivers tokens) (budget : Nat) :
    (State.start stream budget).Reads tokens :=
  ofDelivers delivers rfl rfl rfl

end Reads

end State

/-- The state in which another stream is read in the place of the outer one. -/
def State.onStream (outer : State) (stream : TokenStream) (budget : Nat) : State :=
  { State.start stream budget with
    depth := outer.depth, faults := outer.faults, file := outer.file, nextNode := outer.nextNode,
    exhausted := outer.exhausted }

theorem placed_delivers {lexer : Lexer} (yields : lexer.Yields tokens) (position : Position) :
    (TokenStream.replay ⟨tokens.map fun token => { token with position }⟩).Delivers
      (tokens.map fun token => { token with position }) := by
  obtain ⟨body, eof, rfl, ended, going⟩ := yields.ends
  rw [map_append]
  exact TokenStream.replay_delivers ended (forall_mem_map.mpr going)

theorem startText_reads (file source : String) (firstNode : Nat) :
    (startText file source firstNode).Reads (tokenize source) :=
  .ofDelivers (TokenStream.live_delivers (Lexer.tokenize_yields source)) rfl rfl rfl

section Runs

variable {α β : Type} (state : State)

theorem run_pure (value : α) : (pure value : Step α).run state = (value, state) := rfl

theorem run_bind (step : Step α) (next : α → Step β) :
    (step >>= next).run state = (next (step.run state).1).run (step.run state).2 :=
  rfl

theorem run_lift_bind (step : Step α) (next : α → Parse β) :
    (liftM step >>= next).run = step >>= fun value => (next value).run :=
  rfl

theorem run_advance : advance.run state = ((), state.advanced) := rfl

theorem run_current : current.run state = (state.current, state) := rfl

theorem run_ahead : ahead.run state = (state.ahead, state) := rfl

theorem run_currentIs (kind : TokenKind) :
    (currentIs kind).run state = (state.current.kind == kind, state) :=
  rfl

theorem run_aheadIs (kind : TokenKind) :
    (aheadIs kind).run state = (state.ahead.kind == kind, state) :=
  rfl

theorem run_turns : turns.run state = (state.budget, state) := rfl

theorem run_kindAfterAhead : kindAfterAhead.run state =
    (state.stream.next.1.kind, { state with stream := (state.stream.peek 1).2 }) := by
  rw [← TokenStream.peek_kind]
  rfl

theorem run_expect (kind : TokenKind) : (expect kind).run.run state =
    if state.ahead.kind == kind then (some (), state.advanced)
    else (none, ((recordMissing kind).run state).2) := by
  unfold expect tryExpect
  rw [run_lift_bind, run_bind, run_bind, run_aheadIs]
  split <;> rfl

end Runs

/-- A step that only looks: at most it numbers a node. -/
class Looks {α : Type} (step : Step α) : Prop where
  same : ∀ state : State, ∃ nextNode, (step.run state).2 = { state with nextNode }

section Looking

instance pure_looks {α : Type} (value : α) : Looks (pure value) := ⟨fun _ => ⟨_, rfl⟩⟩

instance : Looks current := ⟨fun _ => ⟨_, rfl⟩⟩

instance : Looks ahead := ⟨fun _ => ⟨_, rfl⟩⟩

instance (kind : TokenKind) : Looks (currentIs kind) := ⟨fun _ => ⟨_, rfl⟩⟩

instance (kind : TokenKind) : Looks (aheadIs kind) := ⟨fun _ => ⟨_, rfl⟩⟩

instance : Looks turns := ⟨fun _ => ⟨_, rfl⟩⟩

instance (token : Token) : Looks (mark token) := ⟨fun _ => ⟨_, rfl⟩⟩

instance markCurrent_looks : Looks markCurrent := ⟨fun _ => ⟨_, rfl⟩⟩

end Looking

end Parser

end Stubwise
