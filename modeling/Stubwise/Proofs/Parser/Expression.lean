import Stubwise.Proofs.Parser.Proceeds

namespace Stubwise

open Lexer

/-- A level at which expressions are read: no token binds looser. -/
class Level.Readable (level : Level) : Prop where
  le : .named ≤ level

namespace Level

instance : Level.Readable named := ⟨by decide⟩
instance : Level.Readable test := ⟨by decide⟩
instance : Level.Readable conditional := ⟨by decide⟩
instance : Level.Readable compare := ⟨by decide⟩
instance : Level.Readable unary := ⟨by decide⟩
instance : Level.Readable await := ⟨by decide⟩

instance (op : UnaryOp) : Level.Readable op.level := ⟨by cases op <;> decide⟩
instance (op : BoolOp) : Level.Readable op.level := ⟨by cases op <;> decide⟩
instance (op : BinaryOp) : Level.Readable op.level := ⟨by cases op <;> decide⟩

end Level

namespace Parser
set_option synthInstance.maxSize 40000

/-- A way of reading expressions that goes forward at every level at which one is read. -/
class Reader (limit : Nat) (read : ReadExpr) : Prop where
  proceeds : ∀ (bound : Nat) (level : Level), level.Readable → Proceeds limit bound (read level).run

section

variable {limit bound : Nat} {read : ReadExpr} [reader : Reader limit read]
  (hints : Bool) (turns : Nat) (soFar : ParamsSoFar) (level : Level) (close : Symbol)

instance (priority := low) (level : Level) [readable : level.Readable] :
    Proceeds limit bound (read level).run :=
  reader.proceeds bound level readable

instance : Proceeds limit bound (addPlain read hints soFar).run := by
  unfold addPlain
  dsimp only
  split <;> infer_instance

instance : Proceeds limit bound (addPart read hints soFar).run := by
  refine proceeds_then fun token => ?_
  split <;> infer_instance

instance : Proceeds limit turns (moreParameters read close hints turns soFar).run := by
  induction turns generalizing soFar with
  | zero => infer_instance
  | succ =>
    unfold moreParameters
    infer_instance

instance (context : Context) (expr : Expr) : Proceeds limit bound (target context expr).run := by
  unfold target
  split <;> infer_instance

instance : Proceeds limit bound clauseAhead := by
  unfold clauseAhead
  infer_instance

instance clauseAhead_shows : ShowsAhead clauseAhead (· = true) where
  stays state := by
    unfold clauseAhead
    rw [run_bind]
    split
    · exact ⟨rfl, rfl⟩
    · rw [run_bind]
      split <;> exact ⟨rfl, rfl⟩
  inner {state} holds := by
    unfold clauseAhead at holds
    rw [run_bind, run_aheadIs] at holds
    split at holds
    · rename_i found
      rw [show state.ahead.kind = .keyword .for_ from eq_of_beq found]
      infer_instance
    · rw [run_bind, run_aheadIs] at holds
      split at holds
      · rename_i found
        rw [show state.ahead.kind = .keyword .async_ from eq_of_beq found]
        infer_instance
      · cases holds

instance : Consumes limit bound (clause read).run := by
  unfold clause
  infer_instance

instance : Proceeds limit bound (expressionOnly read).run := by
  have current : Guards (currentIs .newline) (· = true) := guards_currentIs TokenKind.noConfusion
  have ahead : Guards (aheadIs .newline) (· = true) := guards_aheadIs TokenKind.noConfusion
  unfold expressionOnly
  infer_instance

theorem onStream_proceeds {α : Type} {stream : TokenStream} {budget : Nat} {parse : Parse α}
    {tokens : List Token} (delivers : stream.Delivers tokens) (room : tokens.length ≤ budget)
    [inner : ∀ bound, Proceeds limit bound parse.run] :
    Proceeds limit bound (onStream stream budget parse) where
  leaves {state outside} ready _ := by
    have inside : (state.onStream stream budget).Ready limit tokens :=
      ⟨(State.Reads.start delivers budget).congr, ready.deep, ready.calm, room⟩
    obtain ⟨left, calm, _⟩ := (inner tokens.length).leaves inside (Nat.le_refl _)
    exact ⟨outside, ⟨ready.reads.congr, ready.deep, calm.calm, ready.room⟩,
      List.suffix_refl _, ⟨rfl, Nat.le_refl _, fun _ _ on => on⟩⟩

instance (position : Position) (source : String) : Proceeds limit bound (embedded read position source) := by
  have room : (tokenize source).length ≤ tokenBound source.length := by
    exact tokensWithin_length_le _ _
  exact onStream_proceeds (placed_delivers (tokenize_yields source) position) (by simpa using room)

instance (position : Position) (sources : List String) :
    Proceeds limit bound (embeddedAll read position sources) := by
  induction sources <;> unfold embeddedAll <;> infer_instance

instance (pieces : StringPieces) : Proceeds limit turns (stringPieces read turns pieces).run := by
  induction turns generalizing pieces with
  | zero => infer_instance
  | succ =>
    unfold stringPieces
    infer_instance

instance : Proceeds limit bound (operand read).run := by
  refine proceeds_then fun token => ?_
  split <;> infer_instance

end

set_option synthInstance.maxSize 4000000

section

variable {limit bound : Nat} {read : ReadExpr} [reader : Reader limit read]

instance (level : Level) [readable : level.Readable] : ShowsAhead levelAhead (level < ·) where
  stays state := by
    rw [run_bind]
    dsimp only
    split <;> exact ⟨rfl, rfl⟩
  inner tighter := by
    rw [run_bind, run_ahead] at tighter
    constructor <;> intro ended <;> rw [ended] at tighter <;>
      exact absurd tighter (Nat.not_lt.mpr readable.le)

instance {condition : Prop} [Decidable condition] {yes no : Level}
    [first : yes.Readable] [second : no.Readable] :
    Level.Readable (if condition then yes else no) := by
  split
  · exact first
  · exact second

/-- A chain of a Boolean operator ends, because its operator is a token in front of `eof`. -/
theorem booleanExpr_leaves (op : BoolOp) (left : Expr) {state : State} {tokens : List Token}
    (ready : state.Ready limit tokens) (few : tokens.length ≤ bound) (going : state.current.kind ≠ .eof) :
    state.Leaves limit tokens ((booleanExpr read op left).run.run state).2 := by
  have token : (markCurrent.run state).1.token.kind = state.current.kind := rfl
  have guard : Guards (aheadIs (markCurrent.run state).1.token.kind) (· = true) :=
    guards_aheadIs (by rw [token]; exact going)
  rw [run_lift_bind, run_bind]
  refine ((markCurrent_looks.agrees state).leaves ready).trans fun marked fewer => ?_
  exact Proceeds.leaves marked (Nat.le_trans fewer few)

instance : Proceeds limit bound compareOperator.run := by
  refine proceeds_then fun token => ?_
  split <;> infer_instance

instance : ShowsAhead comparisonAhead (· = true) :=
  have shows : ShowsAhead levelAhead (Level.named < ·) := inferInstance
  ⟨shows.stays, fun {state} holds => shows.inner (by
    rw [show (levelAhead.run state).1 = .compare from eq_of_beq holds]
    decide)⟩

instance (left : Expr) : Proceeds limit bound (namedExpr read left).run := by
  unfold namedExpr
  split <;> infer_instance

instance (left : Expr) : Proceeds limit bound (extend read left).run where
  leaves ready few := by
    unfold extend
    rw [run_lift_bind, run_bind, run_current]
    dsimp only
    split
    case h_2 found => exact booleanExpr_leaves .or left ready few (by simp [found])
    case h_3 found => exact booleanExpr_leaves .and left ready few (by simp [found])
    case h_7 => split <;> exact Proceeds.leaves ready few
    all_goals exact Proceeds.leaves ready few

instance (level : Level) [level.Readable] (turns : Nat) (left : Expr) :
    Proceeds limit turns (extendAll read level turns left).run := by
  induction turns generalizing left with
  | zero => infer_instance
  | succ =>
    unfold extendAll
    infer_instance

end

def State.entered (state : State) : State :=
  { state with depth := state.depth + 1 }

theorem run_enter (state : State) : enter.run.run state = if maxDepth < state.depth + 1 then
      (none, ((record .nestingTooDeep state.current "nesting too deep").run state.entered).2)
    else (some (), state.entered) := by
  show ((if maxDepth < state.depth + 1 then liftM current >>= fun token =>
    reject .nestingTooDeep token "nesting too deep" else pure () : Parse Unit).run).run state.entered = _
  split <;> rfl

theorem run_andLeave {α : Type} (parse : Parse α) (state : State) : (andLeave parse).run.run state =
    ((parse.run.run state).1, (leave.run (parse.run.run state).2).2) := by
  unfold andLeave
  rw [OptionT.run_bind, OptionT.run_lift, Option.elimM, run_bind, run_bind, run_pure,
    Option.elim_some, run_lift_bind, run_bind]
  split <;> rename_i result <;> rw [result] <;> rfl

theorem expressionWith_proceeds {limit bound : Nat} {read : ReadExpr} (level : Level)
    [level.Readable] (inner : limit < maxDepth → Reader (limit + 1) read) :
    Proceeds limit bound (expressionWith read level).run where
  leaves {state tokens} ready few := by
    have deeper : state.Precedes state.entered := ⟨rfl, Nat.le_succ _, fun _ _ on => on⟩
    have entered : state.entered.Ready (limit + 1) tokens :=
      ⟨ready.reads.congr, Nat.succ_le_succ ready.deep, ready.calm, ready.room⟩
    rw [OptionT.run_bind, Option.elimM, run_bind, run_enter]
    split
    · have recorded := (record_proceeds .nestingTooDeep state.current "nesting too deep").leaves entered few
      obtain ⟨left, readyLeft, shorter, precedes⟩ := recorded
      exact ⟨left, ⟨readyLeft.reads, Nat.le_of_succ_le readyLeft.deep, readyLeft.calm,
        readyLeft.room⟩, shorter, deeper.trans precedes⟩
    · have reader := inner (by have deep := ready.deep; omega)
      show state.Leaves limit tokens ((andLeave do
        let first ← operand read
        extendAll read level (← turns) first).run.run state.entered).2
      rw [run_andLeave]
      have body : Proceeds (limit + 1) bound (do
          let first ← operand read
          extendAll read level (← turns) first : Parse Expr).run := inferInstance
      obtain ⟨left, readyLeft, shorter, precedes⟩ := body.leaves entered few
      have count : state.depth + 1 ≤ _ := precedes.depth
      refine ⟨left, ⟨readyLeft.reads.congr, ?_, readyLeft.calm, readyLeft.room⟩,
        shorter, ⟨precedes.budget, ?_, precedes.lexer⟩⟩
      · exact Nat.le_trans ready.deep (Nat.le_sub_of_add_le count)
      · exact Nat.le_sub_of_add_le count

theorem expressionWithin_reader (fuel limit : Nat) (enough : maxDepth ≤ limit + fuel) :
    Reader limit (expressionWithin (fuel + 1)) := by
  induction fuel generalizing limit with
  | zero =>
    refine ⟨fun bound level readable => expressionWith_proceeds level fun shallow => ?_⟩
    exact absurd enough (by omega)
  | succ _ ih =>
    refine ⟨fun bound level readable => expressionWith_proceeds level fun _ => ?_⟩
    exact ih (limit + 1) (by omega)

instance (limit : Nat) : Reader limit expression :=
  expressionWithin_reader maxDepth limit (by omega)

variable {limit bound : Nat}

instance {α β : Type} {parse : α → Parse β}
    [∀ value, Proceeds limit bound (parse value).run] (values : List α) :
    Proceeds limit bound (values.mapM parse).run := by
  induction values with
  | nil =>
    rw [List.mapM_nil]
    infer_instance
  | cons =>
    rw [List.mapM_cons]
    infer_instance

instance (inParens : Bool) (turns : Nat) : Proceeds limit turns (fromNames inParens turns).run := by
  induction turns with
  | zero => infer_instance
  | succ =>
    unfold fromNames
    infer_instance

instance : Proceeds limit bound simpleStmt.run := by
  refine proceeds_then fun token => ?_
  split <;> infer_instance

end Parser

end Stubwise
