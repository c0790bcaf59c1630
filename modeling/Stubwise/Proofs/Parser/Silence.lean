import Mathlib.Data.List.Forall2
import Stubwise.Proofs.Parser.Fields
import Stubwise.Proofs.Parser.Located

namespace Stubwise.Parser

open List

open Movable (move)

set_option synthInstance.maxSize 4000000

variable {file source : String} {firstNode : Nat} {position : Position} {sources : List String}
  {token : Token} {rest : List Token} {r : Relocation}

/-- Where an expression in a field is read from: a stream of its own, in the place of the outer one. -/
def State.inField (outer : State) (position : Position) (source : String) : State :=
  { State.start (.replay ⟨(tokenize source).map fun token => { token with position }⟩)
      (Lexer.tokenBound source.length) with
    depth := outer.depth, faults := outer.faults, file := outer.file, nextNode := outer.nextNode,
    exhausted := outer.exhausted }

/-- The routines of the parser that may give up, and the small steps between them. -/
inductive Routine : {α : Type} → Parse α → Prop where
  | advance : Routine (liftM advance)
  | lookAhead : Routine (liftM kindAfterAhead)
  | mark (token : Token) : Routine (liftM (mark token))
  | begin : Routine (liftM (modify fun state => { state with statementFaults := 0 } : Step Unit))
  | expect (kind : TokenKind) : Routine (expect kind)
  | reject {α : Type} [Movable α] (code : Code) (token : Token) (message : String) :
      Routine (reject code token message : Parse α)
  | unexpected {α : Type} [Movable α] (token : Token) : Routine (unexpected token : Parse α)
  | outOfTurns {α : Type} [Movable α] : Routine (outOfTurns : Parse α)
  | enter : Routine enter
  | leave : Routine (liftM leave)
  | expression (fuel : Nat) (level : Level) : Routine (expressionWithin fuel level)
  | expressionList (fuel : Nat) (level : Level) :
      Routine (expressionList (expressionWithin fuel) level)
  | expressionOnly (fuel : Nat) : Routine (expressionOnly (expressionWithin fuel))
  | operand (fuel : Nat) : Routine (operand (expressionWithin fuel))
  | strings (fuel : Nat) : Routine (strings (expressionWithin fuel))
  | field (fuel : Nat) (position : Position) (source : String) :
      Routine (OptionT.mk (embedded (expressionWithin fuel) position source))
  | extend (fuel : Nat) (left : Expr) : Routine (extend (expressionWithin fuel) left)
  | named (fuel : Nat) (left : Expr) : Routine (namedExpr (expressionWithin fuel) left)
  | callArgs (fuel : Nat) : Routine (callArgs (expressionWithin fuel))
  | parameters (fuel : Nat) (close : Symbol) (hints : Bool) :
      Routine (parameters (expressionWithin fuel) close hints)
  | target (context : Context) (expr : Expr) : Routine (target context expr)
  | targetList (fuel : Nat) : Routine (targetList (expressionWithin fuel))
  | simpleStmt : Routine simpleStmt
  | returnStmt : Routine returnStmt
  | raiseStmt : Routine raiseStmt
  | assertStmt : Routine assertStmt
  | nameList (turns : Nat) : Routine (nameList turns)
  | deleteStmt : Routine deleteStmt
  | importStmt : Routine importStmt
  | importFromStmt : Routine importFromStmt
  | expressionStmt : Routine expressionStmt
  | assignStmt (first : Expr) : Routine (assignStmt first)
  | augAssignStmt (first : Expr) : Routine (augAssignStmt first)
  | annAssignStmt (start : Token) (first : Expr) : Routine (annAssignStmt start first)
  | line : Routine (liftM simpleStmts)
  | block (fuel : Nat) : Routine (block (statementWithin fuel))
  | compound (fuel : Nat) (kind : TokenKind) {parse : Parse Stmt}
      (found : compound? (statementWithin fuel) kind = some parse) : Routine parse
  | statement (fuel : Nat) : Routine (liftM (statementWithin fuel))

inductive Recovery : {α : Type} → Step α → Prop where
  | advance : Recovery advance
  | abandonBracket (start : Token) : Recovery (abandonBracket start)
  | skipLine (turns : Nat) : Recovery (skipLine turns)
  | skipBlock (turns level : Nat) : Recovery (skipBlock turns level)

inductive State.Recovers (start : State) : State → Prop where
  | here : Recovers start start
  | step {α : Type} {step : Step α} {state : State} (led : Recovers start state)
      (recovery : Recovery step) : Recovers start (step.run state).2

/-- The states that are met from a state on: behind each routine, in the fields of strings, and where
reading goes on after something was given up. -/
inductive State.Leads (start : State) : State → Prop where
  | here : Leads start start
  | routine {α : Type} {parse : Parse α} {state : State} (led : Leads start state)
      (run : Routine parse) : Leads start (parse.run.run state).2
  | field {state : State} (led : Leads start state) (position : Position) (source : String) :
      Leads start (state.inField position source)
  | recovered {α : Type} {parse : Parse α} {state after : State} (led : Leads start state)
      (run : Routine parse) (given : (parse.run.run state).1 = none)
      (recovers : (parse.run.run state).2.Recovers after) : Leads start after

section Fields

variable {r : Relocation} {read : ReadExpr} [∀ level, ParallelParse r (read level) (read level)]
  {before : List Diagnostic} {state another : State}

theorem run_embedded (position : Position) (source : String) (state : State) :
    (embedded read position source).run state =
      let inner := (expressionOnly read).run.run (state.inField position source)
      (inner.1, { state with
        faults := inner.2.faults, nextNode := inner.2.nextNode, exhausted := inner.2.exhausted }) :=
  rfl

theorem inField_reads (state : State) (position : Position) (source : String) :
    (state.inField position source).Reads
      ((tokenize source).map fun token => { token with position }) :=
  .ofDelivers (placed_delivers (Lexer.tokenize_yields source) position) rfl rfl rfl

theorem embedded_gives (position : Position) (source : String) (alike : state.Alike r before another)
    (clean : ((embedded read position source).run state).2.Clean) :
    ∃ value, ((embedded read position source).run state).1 = some value := by
  have tokens := inField_reads state position source
  have moved : (another.inField (move r position) source).Reads
      (((tokenize source).map fun token => { token with position }).map (move r)) := by
    rw [map_map]
    exact inField_reads another (move r position) source
  have inside : (state.inField position source).Alike r before
      (another.inField (move r position) source) :=
    ⟨⟨_, tokens, moved⟩, alike.depth, alike.nextNode, ⟨0, rfl⟩, rfl, alike.faults⟩
  rw [run_embedded] at clean ⊢
  have still : ((expressionOnly read).run.run (state.inField position source)).2.Clean := ⟨clean.1, clean.2⟩
  obtain ⟨value, found, -⟩ := expressionOnly_parallel.follows inside still
  exact ⟨value, found⟩

end Fields

section Sincerity

namespace State

/-- What is so in all states of a run: while nothing is on record, the current statement has no fault
and what is left to read is a list of tokens. -/
def Sincere (state : State) : Prop :=
  state.Clean → state.statementFaults = 0 ∧ ∃ tokens, state.Reads tokens

variable {state : State}

theorem Sincere.alike (sincere : state.Sincere) (clean : state.Clean) :
    ∃ r, r.skip = 0 ∧ state.Alike r state.faults state := by
  obtain ⟨fresh, tokens, reads⟩ := sincere clean
  refine ⟨.around tokens, rfl, ?_⟩
  exact { tokens := ⟨tokens, reads, by rw [Relocation.map_around]; exact reads⟩
          depth := rfl
          nextNode := rfl
          budget := ⟨0, rfl⟩
          fresh
          faults := rfl }

theorem Alike.sincere {before : List Diagnostic} {another : State}
    (alike : state.Alike r before another) : state.Sincere := by
  obtain ⟨tokens, reads, -⟩ := alike.tokens
  exact fun _ => ⟨alike.fresh, tokens, reads⟩

end State

/-- What a routine gives up is on record, and so is what was on record before it. -/
class Outspoken {α : Type} (parse : Parse α) : Prop where
  grows : ∀ state : State, state.Grows (parse.run.run state).2
  gives : ∀ {state : State}, state.Sincere → (parse.run.run state).2.Clean →
    ((parse.run.run state).1.isSome = true ∧ (parse.run.run state).2.Sincere)

theorem outspoken_of_parallel {α : Type} [Movable α] {parse : Parse α}
    (beside : ∀ r : Relocation, ∃ other, ParallelParse r parse other) : Outspoken parse where
  grows := by
    obtain ⟨other, both⟩ := beside (.around [])
    exact both.grows
  gives {state} sincere clean := by
    obtain ⟨_, grows⟩ := beside (.around [])
    obtain ⟨r, -, alike⟩ := sincere.alike ((grows.grows state).clean clean)
    obtain ⟨other, both⟩ := beside r
    obtain ⟨value, found, -, after⟩ := both.follows alike clean
    exact ⟨by rw [found]; rfl, after.sincere⟩

end Sincerity

section

variable {α β : Type} [Movable α] [Movable β]

theorem outspoken_of_self {parse : Parse α} [both : ∀ r, ParallelParse r parse parse] :
    Outspoken parse :=
  outspoken_of_parallel fun r => ⟨parse, both r⟩

theorem outspoken_of_moved {parse : β → Parse α}
    [both : ∀ r value, ParallelParse r (parse value) (parse (move r value))] (value : β) :
    Outspoken (parse value) :=
  outspoken_of_parallel fun r => ⟨parse (move r value), both r value⟩

end

/-- No routine gives up silently. -/
theorem outspoken_of_routine {α : Type} {parse : Parse α} (routine : Routine parse) :
    Outspoken parse := by
  have statements (fuel : Nat) (r : Relocation) :
      Parallel r (statementWithin fuel) (statementWithin fuel) :=
    statementWithin_parallel fuel 0
  cases routine with
  | mark token => exact outspoken_of_parallel fun r => ⟨liftM (mark (move r token)), inferInstance⟩
  | extend fuel left | named fuel left => exact outspoken_of_moved left
  | target _ expr => exact outspoken_of_moved expr
  | assignStmt first | augAssignStmt first => exact outspoken_of_moved first
  | annAssignStmt start first =>
    exact outspoken_of_parallel fun r =>
      ⟨annAssignStmt (move r start) (move r first), inferInstance⟩
  | nameList turns => exact outspoken_of_parallel fun r => ⟨nameList (turns + 0), inferInstance⟩
  | compound fuel kind found =>
    refine outspoken_of_parallel fun r => ?_
    obtain ⟨none, -⟩ | ⟨_, other, same, -, both⟩ :=
      compound?_parallel r (statementWithin fuel) (statementWithin fuel) kind
    · cases none.symm.trans found
    · cases same.symm.trans found
      exact ⟨other, both⟩
  | field fuel position source =>
    have step (r : Relocation) : Parallel r (embedded (expressionWithin fuel) position source)
        (embedded (expressionWithin fuel) (move r position) source) := inferInstance
    refine ⟨(step (.around [])).grows, fun {state} sincere clean => ?_⟩
    obtain ⟨r, -, alike⟩ := sincere.alike (((step (.around [])).grows state).clean clean)
    obtain ⟨value, found⟩ := embedded_gives position source alike clean
    refine ⟨?_, ((step r).follows alike clean).2.sincere⟩
    exact Option.isSome_iff_exists.mpr ⟨value, found⟩
  | _ => exact outspoken_of_self

section Met

variable {state start after : State}

theorem State.Recovers.grows (recovers : start.Recovers after) : start.Grows after := by
  induction recovers with
  | here => exact .refl start
  | step _ recovery ih =>
    refine ih.trans (@Keeps.grows _ _ ?_ _)
    cases recovery <;> infer_instance

theorem State.Leads.grows (leads : start.Leads state) : start.Grows state := by
  induction leads with
  | here => exact .refl start
  | routine _ run ih => exact ih.trans ((outspoken_of_routine run).grows _)
  | field _ _ _ ih => exact ih.trans ⟨suffix_rfl, id⟩
  | recovered _ run _ recovers ih =>
    exact (ih.trans ((outspoken_of_routine run).grows _)).trans recovers.grows

theorem State.Leads.sincere (leads : start.Leads state) (sincere : start.Sincere) :
    state.Sincere := by
  induction leads with
  | here => exact sincere
  | routine _ run ih => exact fun clean => ((outspoken_of_routine run).gives ih clean).2 clean
  | field _ position source => exact fun _ => ⟨rfl, _, inField_reads _ position source⟩
  | recovered _ run given recovers ih =>
    intro clean
    have found := ((outspoken_of_routine run).gives ih (recovers.grows.clean clean)).1
    rw [given] at found
    cases found

end Met

section Watched

/-- Between statements, and at the end of a block, there is nothing to read. -/
def isBreak : TokenKind → Bool
  | .newline | .symbol .semicolon | .dedent => true
  | _ => false

/-- Reads statements, and rings an alarm where one should have been found and none was. -/
def watch (alarm : State → State) (read : ReadStmts) : ReadStmts := do
  let start ← current
  let stmts ← read
  if stmts.isEmpty && !isBreak start.kind then modify alarm
  return stmts

/-- Reads statements like the parser, under an alarm for all of them. -/
def watchedWithin (alarm : State → State) : Nat → ReadStmts
  | 0 => statementWithin 0
  | fuel + 1 => watch alarm (statementWith (watchedWithin alarm fuel))

def watched (alarm : State → State) : ReadStmts := do
  watchedWithin alarm (← turns)

variable {r : Relocation} {before : List Diagnostic} {state another : State}

theorem statementWith_nonempty {read other : ReadStmts} (both : Parallel r read other)
    (alike : state.Alike r before another) (clean : ((statementWith read).run state).2.Clean)
    (starts : isBreak state.current.kind = false) :
    ((statementWith read).run state).1.isEmpty = false := by
  have whole : Parallel r (statementWith read) (statementWith other) := inferInstance
  have begun := (fresh_parallel.follows alike ((whole.grows state).clean clean)).2
  revert clean
  unfold statementWith
  rw [run_bind, run_bind, run_current]
  generalize begin : ((modify fun state => { state with statementFaults := 0 } : Step Unit).run
    state).2 = fresh at begun ⊢
  replace starts : isBreak fresh.current.kind = false := by
    rw [← begin]
    exact starts
  split
  next kind => rw [kind] at starts; cases starts
  next kind => rw [kind] at starts; cases starts
  next kind => rw [kind] at starts; cases starts
  next =>
    intro clean
    exact absurd clean ((record_bind_faulty _ _ _).faulty begun.fresh)
  next =>
    rcases compound?_parallel r read other fresh.current.kind with
      ⟨none, -⟩ | ⟨compound, compound', found, -, inner⟩
    · rw [none]
      exact simpleLine_nonempty begun
    · rw [found]
      rw [run_bind]
      cases result : (compound.run.run fresh).1 with
      | some => exact fun _ => rfl
      | none =>
        intro clean
        have giving : Keeps (do
            if !(← abandonBracket fresh.current) then skipCompound
            return ([] : List Stmt)) := inferInstance
        obtain ⟨value, known, -⟩ := inner.follows begun ((giving.grows _).clean clean)
        cases known.symm.trans result

instance {read other : ReadStmts} [both : Parallel r read other] (alarm : State → State) :
    Parallel r (statementWith read) (watch alarm (statementWith other)) := by
  have whole : Parallel r (statementWith read) (statementWith other) := inferInstance
  refine ⟨whole.grows, fun {before state another} alike clean => ?_⟩
  obtain ⟨value, after⟩ := whole.follows alike clean
  have quiet : (((statementWith other).run another).1.isEmpty && !isBreak another.current.kind) = false := by
    rw [alike.current, kind_move, value]
    cases starts : isBreak state.current.kind with
    | true => exact Bool.and_false _
    | false =>
      have found := statementWith_nonempty both alike clean starts
      rw [show (move r ((statementWith read).run state).1).isEmpty = false from
        isEmpty_map.trans found]
      rfl
  unfold watch
  rw [run_bind, run_current, run_bind]
  rw [quiet]
  exact ⟨value, after⟩

instance (alarm : State → State) (fuel more : Nat) :
    Parallel r (statementWithin fuel) (watchedWithin alarm (fuel + more)) := by
  induction fuel with
  | zero =>
    unfold statementWithin
    infer_instance
  | succ =>
    rw [Nat.add_right_comm]
    unfold statementWithin watchedWithin
    infer_instance

instance (alarm : State → State) : Parallel r statement (watched alarm) := by
  unfold statement watched
  infer_instance

end Watched

section Strings

/-- The literals that are joined with one before them. -/
def joined (tokens : List Token) : List Token :=
  tokens.takeWhile fun token => token.kind == .string || token.kind == .fstring

variable {fuel : Nat} {state : State}

end Strings

end Stubwise.Parser
