import Stubwise.Proofs.Lexer.Progress
import Stubwise.Token.Stream

namespace Stubwise

open List

namespace LiveStream

variable {stream : LiveStream} {tokens : List Token}

/-- The tokens that the stream has left: those in its buffer, and then those of its lexer, unless
the last one is in the buffer already. -/
inductive Remains : LiveStream → List Token → Prop where
  | reading {lexer : Lexer} {buffer unread : List Token} (yields : lexer.Yields unread)
      (going : ∀ token ∈ buffer, token.kind ≠ .eof) :
      Remains { lexer, buffer, ended := false } (buffer ++ unread)
  | read {lexer : Lexer} {body : List Token} {eof : Token}
      (going : ∀ token ∈ body, token.kind ≠ .eof) (last : eof.kind = .eof) :
      Remains { lexer, buffer := body ++ [eof], ended := true } (body ++ [eof])

theorem ofText_remains (source : String) : (ofText source).Remains (tokenize source) := by
  have going : ∀ token ∈ ([] : List Token), token.kind ≠ .eof := fun _ => nofun
  exact .reading (Lexer.tokenize_yields source) going

namespace Remains

theorem fetch (remains : stream.Remains tokens) : stream.fetch.Remains tokens := by
  cases remains with
  | read going last => exact .read going last
  | @reading lexer buffer _ yields going =>
    simp only [fetch, Bool.false_eq_true, if_false]
    cases yields with
    | last ended =>
      rw [ended]
      exact .read going ended
    | more other rest =>
      have after : ∀ token ∈ buffer ++ [lexer.next.1], token.kind ≠ .eof :=
        forall_mem_append.mpr ⟨going, forall_mem_singleton.mpr other⟩
      have moved := Remains.reading rest after
      rw [← append_cons] at moved
      rw [beq_eq_false_iff_ne.mpr other]
      exact moved

theorem fetches (remains : stream.Remains tokens) (count : Nat) :
    (count.repeat LiveStream.fetch stream).Remains tokens := by
  induction count with
  | zero => exact remains
  | succ _ ih => exact ih.fetch

theorem buffer (remains : stream.Remains tokens) :
    ∃ unread, tokens = stream.buffer ++ unread ∧ (stream.ended = true → unread = []) := by
  cases remains with
  | reading => exact ⟨_, rfl, fun ended => absurd ended (by simp)⟩
  | read => exact ⟨[], (append_nil _).symm, fun _ => rfl⟩

end Remains

theorem fetches_length (stream : LiveStream) (count : Nat) :
    (count.repeat fetch stream).ended = true ∨
      (count.repeat fetch stream).buffer.length = stream.buffer.length + count := by
  induction count with
  | zero => exact .inr rfl
  | succ count ih =>
    have step : (count + 1).repeat fetch stream = (count.repeat fetch stream).fetch := rfl
    rw [step]
    generalize count.repeat fetch stream = before at ih
    cases ended : before.ended with
    | true => exact .inl (by simp [fetch, ended])
    | false =>
      have length := ih.resolve_left (by simp [ended])
      exact .inr (by simp [fetch, ended, length, Nat.add_assoc])

theorem take_fill (remains : stream.Remains tokens) (count : Nat) :
    (stream.fill count).buffer.take count = tokens.take count := by
  obtain ⟨unread, parts, whole⟩ := (remains.fetches (count - stream.buffer.length)).buffer
  show ((count - stream.buffer.length).repeat fetch stream).buffer.take count = _
  rw [parts]
  rcases fetches_length stream (count - stream.buffer.length) with ended | length
  · rw [whole ended, append_nil]
  · rw [take_append_of_le_length (by omega)]

end LiveStream

namespace TokenStream

/-- What can be asked of a stream. -/
inductive Operation where
  | next
  | peek (count : Nat)
  deriving DecidableEq, Repr

def perform : Operation → TokenStream → List Token × TokenStream
  | .next, stream => ([stream.next.1], stream.next.2)
  | .peek count, stream => stream.peek count

/-- The answers to operations one after another. -/
def answers : List Operation → TokenStream → List (List Token)
  | [], _ => []
  | operation :: later, stream =>
    (stream.perform operation).1 :: answers later (stream.perform operation).2

/-- The tokens that were taken off the stream, in order. -/
def taken (operations : List Operation) (stream : TokenStream) : List Token :=
  ((operations.zip (answers operations stream)).filter (·.1 == .next)).flatMap (·.2)

inductive Matches : TokenStream → TokenStream → Prop where
  | intro {stream : LiveStream} {tokens : List Token} (remains : stream.Remains tokens) :
      Matches (.live stream) (.replay ⟨tokens⟩)

theorem Matches.perform {stream list : TokenStream} (same : stream.Matches list) (operation : Operation) :
    (stream.perform operation).1 = (list.perform operation).1 ∧
      (stream.perform operation).2.Matches (list.perform operation).2 := by
  obtain ⟨remains⟩ := same
  rename_i stream tokens
  cases operation with
  | peek count => exact ⟨LiveStream.take_fill remains count, .intro (remains.fetches _)⟩
  | next =>
    have filled : (stream.fill 1).Remains tokens := remains.fetches _
    have first := LiveStream.take_fill remains 1
    simp only [TokenStream.perform, TokenStream.next, LiveStream.next, Replay.next]
    generalize stream.fill 1 = stream at filled first
    cases filled with
    | @reading _ buffer _ yields going =>
      cases buffer with
      | nil => cases yields <;> simp at first
      | cons =>
        obtain ⟨other, others⟩ := forall_mem_cons.mp going
        simp only [cons_append, beq_eq_false_iff_ne.mpr other, Bool.false_eq_true, if_false]
        exact ⟨trivial, .intro (.reading yields others)⟩
    | @read _ body _ going last =>
      cases body with
      | nil =>
        simp only [nil_append, last, beq_self_eq_true, if_true]
        exact ⟨trivial, .intro (.read going last)⟩
      | cons =>
        obtain ⟨other, others⟩ := forall_mem_cons.mp going
        simp only [cons_append, beq_eq_false_iff_ne.mpr other, Bool.false_eq_true, if_false]
        exact ⟨trivial, .intro (.read others last)⟩

theorem Matches.answers {stream list : TokenStream} (same : stream.Matches list)
    (operations : List Operation) : stream.answers operations = list.answers operations := by
  induction operations generalizing stream list with
  | nil => rfl
  | cons operation _ ih =>
    obtain ⟨answer, after⟩ := same.perform operation
    simp only [TokenStream.answers, answer, ih after]

theorem taken_next (later : List Operation) (stream : TokenStream) :
    taken (.next :: later) stream = stream.next.1 :: taken later stream.next.2 :=
  rfl

theorem taken_replay {body : List Token} {eof : Token} (last : eof.kind = .eof)
    (going : ∀ token ∈ body, token.kind ≠ .eof) (operations : List Operation) :
    taken operations (.replay ⟨body ++ [eof]⟩) =
      (body ++ replicate (operations.count .next) eof).take (operations.count .next) := by
  induction operations generalizing body with
  | nil => rfl
  | cons operation later ih =>
    cases operation with
    | peek count =>
      have uncounted : (Operation.peek count :: later).count .next = later.count .next :=
        count_cons_of_ne (by simp)
      exact ih going
    | next =>
      rw [taken_next, count_cons_self]
      cases body with
      | nil =>
        have stays : (replay ⟨[eof]⟩).next = (eof, .replay ⟨[eof]⟩) := by
          simp [next, Replay.next, last]
        have later := ih going
        simp only [nil_append, take_replicate, Nat.min_self] at later ⊢
        rw [stays, later, replicate_succ]
      | cons token rest =>
        have other : token.kind ≠ .eof := going token mem_cons_self
        have moves : (replay ⟨token :: rest ++ [eof]⟩).next = (token, .replay ⟨rest ++ [eof]⟩) := by
          simp [next, Replay.next, other]
        have later := ih (forall_mem_cons.mp going).2
        rw [moves, later, cons_append, take_succ_cons]
        -- One copy of the last token more makes no difference for what is taken.
        congr 1
        rw [take_append, take_append, take_replicate, take_replicate]
        congr 2
        omega

theorem answers_replay_peek (list : Replay) (before later : List Operation) (count : Nat) :
    (answers (before ++ .peek count :: later) (.replay list)).eraseIdx before.length =
      answers (before ++ later) (.replay list) := by
  induction before generalizing list with
  | nil => rfl
  | cons operation before ih =>
    cases operation with
    | next => exact congrArg ([list.next.1] :: ·) (ih list.next.2)
    | peek other => exact congrArg (list.peek other :: ·) (ih list)

/-- Whatever is asked of a live stream over a text, it answers as a replay of the finished tokens
does. The tokens that are taken are those of the text in order and then its `eof` for ever, and
looking ahead changes no other answer. -/
theorem live_refines_replay (source : String) (operations : List Operation) :
    answers operations (.live (.ofText source)) = answers operations (.replay ⟨tokenize source⟩) ∧
      (∃ body eof, tokenize source = body ++ [eof] ∧ eof.kind = .eof ∧
        (∀ token ∈ body, token.kind ≠ .eof) ∧
        taken operations (.live (.ofText source)) =
          (body ++ replicate (operations.count .next) eof).take (operations.count .next)) ∧
      ∀ count later,
        (answers (operations ++ .peek count :: later) (.live (.ofText source))).eraseIdx
          operations.length = answers (operations ++ later) (.live (.ofText source)) := by
  have same := Matches.intro (LiveStream.ofText_remains source)
  refine ⟨same.answers operations, ?_, fun count later => ?_⟩
  · obtain ⟨body, eof, parts, last, going⟩ := (Lexer.tokenize_yields source).ends
    have replayed := taken_replay last going operations
    rw [parts] at same
    refine ⟨body, eof, parts, last, going, ?_⟩
    rw [← replayed, taken, taken, same.answers]
  · rw [same.answers, same.answers]
    exact answers_replay_peek _ operations later count

end TokenStream

end Stubwise
