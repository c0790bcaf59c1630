import Stubwise.Proofs.Parser.Expression
import Stubwise.Proofs.Parser.Parallel
import Stubwise.Proofs.Parser.Recovery
import Stubwise.Proofs.Run

/-!
Statements are read side by side: a module whose tokens stand at another place has the moved
statements.
-/

namespace Stubwise

open List TokenStream Expr

open Movable (move)

variable {expr expr' : Expr} {tokens : List Token} {position position' : Position} {text text' : String}

section Targets

variable (r : Relocation)

theorem Expr.mark_move (expr : Expr) : (move r expr).mark = move r expr.mark := by
  cases expr with
  | lambda _ params => cases params; rfl
  | _ => rfl

theorem Expr.token_move (expr : Expr) : (move r expr).token = move r expr.token :=
  congrArg Mark.token (expr.mark_move r)

mutual

theorem Expr.asTarget_mapMarks (f : Mark → Mark) (context : Context) : ∀ (expr : Expr) {target : Expr},
    expr.asTarget context = .ok target → (expr.mapMarks f).asTarget context = .ok (target.mapMarks f)
  | .name .., _, made | .access .., _, made | .subscript .., _, made => by
    cases made
    rfl
  | .tuple _ elements _, _, made | .list _ elements _, _, made => by
    obtain ⟨targets, parts, ⟨⟩⟩ := Run.exists_of_bind made
    simp only [mapMarks, asTarget, asTargets_mapAll f context elements parts]
    rfl
  | .starred _ value _, _, made => by
    simp only [asTarget] at made
    split at made
    · cases made
    · rename_i kept
      obtain ⟨target, part, ⟨⟩⟩ := Run.exists_of_bind made
      simp only [mapMarks, asTarget, kept, asTarget_mapMarks f context value part]
      rfl
  | .constant .., _, made | .formatted .., _, made | .set .., _, made | .dict .., _, made
  | .listComp .., _, made | .setComp .., _, made | .generator .., _, made | .dictComp .., _, made
  | .named .., _, made | .binary .., _, made | .unary .., _, made | .boolean .., _, made
  | .compare .., _, made | .conditional .., _, made | .call .., _, made | .slice .., _, made
  | .lambda .., _, made | .yield .., _, made | .await .., _, made => nomatch made

theorem Expr.asTargets_mapAll (f : Mark → Mark) (context : Context) : ∀ (exprs : List Expr) {targets : List Expr},
    asTargets context exprs = .ok targets → asTargets context (mapAll f exprs) = .ok (mapAll f targets)
  | [], _, made => by
    cases made
    rfl
  | expr :: rest, _, made => by
    obtain ⟨first, found, made⟩ := Run.exists_of_bind made
    obtain ⟨others, parts, ⟨⟩⟩ := Run.exists_of_bind made
    simp only [mapAll, asTargets, asTarget_mapMarks f context expr found, asTargets_mapAll f context rest parts]
    rfl

end

end Targets

namespace Parser

set_option synthInstance.maxSize 400000

section Operands

variable {r : Relocation} {read : ReadExpr} [∀ level, ParallelParse r (read level) (read level)]
  (turns more : Nat) (level : Level) (close : Symbol)

instance : Movable ParamsSoFar := ⟨fun r soFar => ⟨move r soFar.params, soFar.seenStar, soFar.seenSlash⟩⟩

instance : Natural r ParamsSoFar.mk ParamsSoFar.mk := ⟨fun _ _ _ => rfl⟩

section

variable (hints : Bool) {soFar soFar' : ParamsSoFar} [moved : IsMoved r soFar soFar']

instance : ParallelParse r (addStar read hints soFar) (addStar read hints soFar') := by
  rw [moved.eq]
  unfold addStar
  infer_instance

instance : ParallelParse r (addSlash soFar) (addSlash soFar') := by
  rw [moved.eq]
  unfold addSlash
  infer_instance

instance : ParallelParse r (addKwarg read hints soFar) (addKwarg read hints soFar') := by
  rw [moved.eq]
  unfold addKwarg
  infer_instance

instance : ParallelParse r (addPlain read hints soFar) (addPlain read hints soFar') := by
  rw [moved.eq]
  have kwarg : (move r soFar).params.kwarg = move r soFar.params.kwarg := rfl
  unfold addPlain
  dsimp only
  rw [kwarg]
  cases soFar.params.kwarg with
  | none =>
    dsimp only [move_none]
    infer_instance
  | some =>
    dsimp only [move_some]
    infer_instance

instance : ParallelParse r (addPart read hints soFar) (addPart read hints soFar') := by
  refine parse_after fun token => ?_
  rw [kind_move]
  split <;> infer_instance

end

instance (hints : Bool) {soFar soFar' : ParamsSoFar} [moved : IsMoved r soFar soFar'] :
    ParallelParse r (moreParameters read close hints turns soFar)
      (moreParameters read close hints (turns + more) soFar') := by
  induction turns generalizing soFar soFar' with
  | zero =>
    unfold moreParameters
    infer_instance
  | succ =>
    rw [Nat.add_right_comm]
    unfold moreParameters
    infer_instance

instance (context : Context) [moved : IsMoved r expr expr'] :
    ParallelParse r (target context expr) (target context expr') := by
  unfold target
  cases made : expr.asTarget context with
  | error => infer_instance
  | ok target =>
    have other : expr'.asTarget context = .ok (move r target) := by
      rw [moved.eq]
      exact asTarget_mapMarks _ context expr made
    rw [other]
    infer_instance

instance : Parallel r clauseAhead clauseAhead := by
  unfold clauseAhead
  infer_instance

instance : ParallelParse r (clause read) (clause read) := by
  unfold clause
  infer_instance

instance expressionOnly_parallel : ParallelParse r (expressionOnly read) (expressionOnly read) := by
  unfold expressionOnly
  infer_instance

theorem onStream_parallel {α : Type} [Movable α] {stream stream' : TokenStream}
    (delivers : stream.Delivers tokens) (moved : stream'.Delivers (tokens.map (move r)))
    (budget : Nat) {parse parse' : Parse α} [inner : ParallelParse r parse parse'] :
    Parallel r (onStream stream budget parse) (onStream stream' budget parse') where
  grows state := by
    have inside := inner.grows (state.onStream stream budget)
    exact ⟨inside.faults, inside.spent⟩
  follows {before state another} alike clean := by
    have start : (state.onStream stream budget).Alike r before (another.onStream stream' budget) :=
      ⟨⟨tokens, .ofDelivers delivers rfl rfl rfl, .ofDelivers moved rfl rfl rfl⟩, alike.depth,
        alike.nextNode, ⟨0, rfl⟩, rfl, alike.faults⟩
    obtain ⟨value, found, other, after⟩ := inner.follows start clean
    obtain ⟨all, reads, others⟩ := alike.tokens
    refine ⟨?_, ⟨all, reads.congr, others.congr⟩, alike.depth, after.nextNode,
      alike.budget, alike.fresh, after.faults⟩
    show (parse'.run.run (another.onStream stream' budget)).1 =
      move r (parse.run.run (state.onStream stream budget)).1
    rw [found, other]
    rfl

instance [moved : IsMoved r position position'] (source : String) :
    Parallel r (embedded read position source) (embedded read position' source) := by
  have yields := Lexer.tokenize_yields source
  unfold embedded
  refine onStream_parallel (placed_delivers yields position) ?_ _
  rw [map_map]
  have other := placed_delivers yields position'
  rw [moved.eq] at other ⊢
  exact other

instance [IsMoved r position position']
    {sources sources' : List String} [moved : IsMoved r sources sources'] :
    Parallel r (embeddedAll read position sources) (embeddedAll read position' sources') := by
  rw [moved.eq, Still.still]
  induction sources <;> unfold embeddedAll <;> infer_instance

instance : Movable StringPieces := ⟨fun r pieces => ⟨pieces.text, move r pieces.values, pieces.isFormatted⟩⟩

instance : Natural r StringPieces.mk StringPieces.mk := ⟨fun _ _ _ => rfl⟩

instance [plain : IsMoved r text text'] :
    IsMoved r (fields text) (fields text') :=
  ⟨by rw [plain.eq]; exact (Still.still r _).symm⟩

instance (turns more : Nat) {pieces pieces' : StringPieces} [moved : IsMoved r pieces pieces'] :
    ParallelParse r (stringPieces read turns pieces) (stringPieces read (turns + more) pieces') := by
  induction turns generalizing pieces pieces' with
  | zero =>
    unfold stringPieces
    infer_instance
  | succ =>
    rw [Nat.add_right_comm, moved.eq]
    unfold stringPieces
    infer_instance

instance : ParallelParse r (operand read) (operand read) := by
  refine parse_after fun token => ?_
  rw [kind_move]
  split <;> infer_instance

end Operands

section Expressions

variable {r : Relocation} {read : ReadExpr} [∀ level, ParallelParse r (read level) (read level)]
  (turns more : Nat) (level : Level)

instance : ParallelParse r compareOperator compareOperator := by
  refine parse_after fun token => ?_
  rw [kind_move]
  split <;> infer_instance

instance : Movable CallArg := ⟨fun r => fun
    | .positional value => .positional (move r value)
    | .keyword arg => .keyword (move r arg)⟩

instance : Natural r CallArg.positional CallArg.positional := ⟨fun _ => rfl⟩
instance : Natural r CallArg.keyword CallArg.keyword := ⟨fun _ => rfl⟩

instance [moved : IsMoved r expr expr'] : IsMoved r expr.token expr'.token := ⟨by rw [moved.eq, token_move]⟩

instance {args args' : List CallArg} [IsMoved r args args'] :
    IsMoved r (args.filterMap (·.positional?)) (args'.filterMap (·.positional?)) :=
  isMoved_filterMap fun arg => by cases arg <;> rfl

instance {args args' : List CallArg} [IsMoved r args args'] :
    IsMoved r (args.filterMap (·.keyword?)) (args'.filterMap (·.keyword?)) :=
  isMoved_filterMap fun arg => by cases arg <;> rfl

section

variable {left left' : Expr} [moved : IsMoved r left left']

instance : ParallelParse r (extend read left) (extend read left') := by
  refine parse_after fun token => ?_
  rw [kind_move]
  dsimp only
  split <;> try infer_instance
  split <;> infer_instance

instance : ParallelParse r (namedExpr read left) (namedExpr read left') := by
  rw [moved.eq]
  cases left with
  | name target id context =>
    show ParallelParse r _ (namedExpr read (.name (move r target) id context))
    unfold namedExpr
    infer_instance
  | _ => exact @faulty_parse _ _ _ _ _ (by unfold namedExpr; infer_instance)

end

instance (level : Level) (turns more : Nat) {left left' : Expr} [IsMoved r left left'] :
    ParallelParse r (extendAll read level turns left) (extendAll read level (turns + more) left') := by
  induction turns generalizing left left' with
  | zero =>
    unfold extendAll
    infer_instance
  | succ =>
    rw [Nat.add_right_comm]
    unfold extendAll
    infer_instance

instance : ParallelParse r enter enter where
  grows state := by
    rw [run_enter]
    split
    · have refused := (record_faulty .nestingTooDeep state.current "nesting too deep").grows state.entered
      exact ⟨refused.faults, refused.spent⟩
    · exact ⟨suffix_rfl, id⟩
  follows {_ state _} alike clean := by
    rw [run_enter] at clean
    rw [run_enter, run_enter, alike.depth]
    by_cases deep : maxDepth < state.depth + 1
    · rw [if_pos deep] at clean
      exact absurd clean ((record_faulty _ _ _).faulty alike.fresh)
    · rw [if_neg deep, if_neg deep]
      exact ⟨(), rfl, rfl, alike.withDepth (· + 1)⟩

instance leave_parallel : Parallel r leave leave where
  grows _ := ⟨suffix_rfl, id⟩
  follows alike _ := ⟨rfl, alike.withDepth (· - 1)⟩

instance {α : Type} [Movable α] {parse parse' : Parse α} [inner : ParallelParse r parse parse'] :
    ParallelParse r (andLeave parse) (andLeave parse') where
  grows state := by
    rw [run_andLeave]
    exact ⟨(inner.grows state).faults, (inner.grows state).spent⟩
  follows alike clean := by
    rw [run_andLeave] at clean
    rw [run_andLeave, run_andLeave]
    obtain ⟨value, found, other, alike⟩ := inner.follows alike clean
    exact ⟨value, found, other, (leave_parallel.follows alike clean).2⟩

end Expressions

section

variable {r : Relocation}

instance (fuel : Nat) (level : Level) :
    ParallelParse r (expressionWithin fuel level) (expressionWithin fuel level) := by
  induction fuel generalizing level <;> unfold expressionWithin <;> infer_instance

end

end Parser

theorem Expr.isSingleTarget_move (r : Relocation) (expr : Expr) :
    (move r expr).isSingleTarget = expr.isSingleTarget := by
  cases expr with
  | lambda _ params => cases params; rfl
  | _ => rfl

namespace Parser

set_option synthInstance.maxSize 4000000

section Values

variable {r : Relocation} {expr expr' : Expr} {exprs exprs' : List Expr}

instance [moved : IsMoved r expr expr'] : IsMoved r expr.isSingleTarget expr'.isSingleTarget :=
  ⟨by rw [moved.eq, Expr.isSingleTarget_move]; rfl⟩

instance [moved : IsMoved r exprs exprs'] : IsMoved r exprs.dropLast exprs'.dropLast :=
  ⟨by rw [moved.eq]; exact map_dropLast.symm⟩

instance [moved : IsMoved r exprs exprs'] [default : IsMoved r expr expr'] :
    IsMoved r (exprs.getLastD expr) (exprs'.getLastD expr') :=
  ⟨by
    rw [moved.eq, default.eq, getLastD_eq_getLast?, getLastD_eq_getLast?]
    show (map (move r) exprs).getLast?.getD _ = _
    rw [getLast?_map]
    cases exprs.getLast? <;> rfl⟩

instance {parts parts' : List String} [moved : IsMoved r parts parts'] :
    IsMoved r (".".intercalate parts) (".".intercalate parts') :=
  ⟨by rw [moved.eq, Still.still]; rfl⟩

instance {mark mark' : Mark} [moved : IsMoved r mark mark'] :
    IsMoved r ((BinaryOp.ofText? mark.token.value).getD .add)
      ((BinaryOp.ofText? mark'.token.value).getD .add) :=
  ⟨by rw [moved.eq]; rfl⟩

instance (context : Context) [moved : IsMoved r exprs exprs'] :
    ParallelParse r (exprs.mapM (target context)) (exprs'.mapM (target context)) := by
  rw [moved.eq]
  induction exprs with
  | nil =>
    show ParallelParse r (mapM _ []) (mapM _ [])
    rw [mapM_nil]
    infer_instance
  | cons first rest =>
    show ParallelParse r (mapM _ (first :: rest)) (mapM _ (move r first :: move r rest))
    rw [mapM_cons, mapM_cons]
    infer_instance

end Values

section Simple

variable {r : Relocation}

instance : ParallelParse r deleteStmt deleteStmt := by
  refine parse_after fun mark => parse_after fun _ => parse_after fun expr => ?_
  have listed {targets targets' : List Expr} : IsMoved r targets targets' →
      ParallelParse r (targets.mapM (target .del) >>= fun made => pure (Stmt.delete mark made))
        (targets'.mapM (target .del) >>= fun made => pure (Stmt.delete (move r mark) made)) :=
    fun _ => inferInstance
  refine listed ?_
  cases expr with
  | tuple tupleMark elements =>
    show IsMoved r (if tupleMark.token.kind == _ then _ else elements)
      (if tupleMark.token.kind == _ then _ else Expr.mapAll (.moved r) elements)
    rw [Expr.mapAll_eq_map]
    split <;> infer_instance
  | lambda _ params =>
    cases params
    exact ⟨rfl⟩
  | _ => exact ⟨rfl⟩

instance (inParens : Bool) (turns more : Nat) :
    ParallelParse r (fromNames inParens turns) (fromNames inParens (turns + more)) := by
  induction turns <;> (try rw [Nat.add_right_comm]) <;> unfold fromNames <;> infer_instance

instance simpleStmt_parallel : ParallelParse r simpleStmt simpleStmt := by
  refine parse_after fun token => ?_
  rw [kind_move]
  split <;> infer_instance

end Simple

/-- A step that takes nothing back. -/
class Keeps {α : Type} (step : Step α) : Prop where
  grows : ∀ state : State, state.Grows (step.run state).2

section Keeping

variable {α β : Type}

instance {step : Step α} [looks : Looks step] : Keeps step where
  grows state := by
    obtain ⟨_, same⟩ := looks.same state
    rw [same]
    exact ⟨suffix_rfl, id⟩

instance {step : Step α} {next : α → Step β} [first : Keeps step]
    [second : ∀ value, Keeps (next value)] : Keeps (step >>= next) :=
  ⟨fun _ => (first.grows _).trans ((second _).grows _)⟩

instance {condition : Prop} [Decidable condition] {yes no : Step α} [first : Keeps yes]
    [second : Keeps no] : Keeps (if condition then yes else no) := by
  split
  · exact first
  · exact second

instance : Keeps (get : Step State) := ⟨fun _ => ⟨suffix_rfl, id⟩⟩

instance advance_keeps : Keeps advance := ⟨fun _ => ⟨suffix_rfl, id⟩⟩

instance outOfTurns_keeps :
    Keeps (modify fun state => { state with exhausted := true } : Step Unit) :=
  ⟨fun _ => ⟨suffix_rfl, fun _ => rfl⟩⟩

instance (turns : Nat) : Keeps (skipLine turns) := by
  induction turns <;> unfold skipLine <;> infer_instance

instance (turns level : Nat) : Keeps (skipBlock turns level) := by
  induction turns generalizing level with
  | zero =>
    unfold skipBlock
    infer_instance
  | succ turns =>
    have branch (kind : TokenKind) : Keeps (match kind with
        | .eof => pure ()
        | .indent => do advance; skipBlock turns (level + 1)
        | .dedent => if level ≤ 1 then pure () else do advance; skipBlock turns (level - 1)
        | _ => do advance; skipBlock turns level) := by
      split <;> infer_instance
    exact ⟨fun state => (branch state.current.kind).grows state⟩

instance (start : Token) : Keeps (abandonBracket start) where
  grows state := by
    rw [run_abandonBracket]
    split <;> exact ⟨suffix_rfl, id⟩

end Keeping

section Lines

variable {r : Relocation} {α β : Type} [Movable α] [Movable β]

/-- A run that stays clean does not take the way of those that give up. -/
theorem parallel_attempt {parse other : Parse α} {handle handle' : Option α → Step β}
    [inner : ParallelParse r parse other] (given : Keeps (handle none))
    (found : ∀ value, Parallel r (handle (some value)) (handle' (some (move r value)))) :
    Parallel r (parse.run >>= handle) (other.run >>= handle') where
  grows state := by
    rw [run_bind]
    refine (inner.grows state).trans ?_
    cases (parse.run.run state).1 with
    | none => exact given.grows _
    | some value => exact (found value).grows _
  follows {_ state _} alike clean := by
    rw [run_bind] at clean
    rw [run_bind, run_bind]
    cases result : (parse.run.run state).1 with
    | none =>
      rw [result] at clean
      obtain ⟨value, found, _⟩ := inner.follows alike ((given.grows _).clean clean)
      cases found.symm.trans result
    | some value =>
      rw [result] at clean
      obtain ⟨again, known, other, alike⟩ := inner.follows alike (((found value).grows _).clean clean)
      cases known.symm.trans result
      rw [other]
      exact (found value).follows alike clean

omit [Movable α] [Movable β] in
instance record_bind_faulty (code : Code) (token : Token) (message : String) {next : Unit → Step α}
    [after : ∀ value, Keeps (next value)] : Faulty (record code token message >>= next) where
  grows _ := ((record_faulty code token message).grows _).trans ((after _).grows _)
  faulty fresh clean :=
    (record_faulty code token message).faulty fresh (((after _).grows _).clean clean)

theorem run_tryExpect (kind : TokenKind) (state : State) : (tryExpect kind).run state =
    if state.ahead.kind == kind then (true, state.advanced)
    else (false, ((recordMissing kind).run state).2) := by
  unfold tryExpect
  rw [run_bind, run_aheadIs]
  split <;> rfl

instance {yes yes' no no' : Step α} [found : Parallel r no no'] :
    Parallel r (if !true then yes else no) (if !true then yes' else no') :=
  found

instance {kind : TokenKind} {next next' : Bool → Step α}
    [found : Parallel r (next true) (next' true)] [missed : Keeps (next false)] :
    Parallel r (tryExpect kind >>= next) (tryExpect kind >>= next') where
  grows state := by
    rw [run_bind, run_tryExpect]
    split
    · exact (advance_keeps.grows state).trans (found.grows _)
    · exact ((recordMissing_faulty kind).grows state).trans (missed.grows _)
  follows {_ state another} alike clean := by
    have same : another.ahead.kind = state.ahead.kind := by
      rw [alike.ahead]
      rfl
    rw [run_bind, run_tryExpect] at clean
    rw [run_bind, run_bind, run_tryExpect, run_tryExpect, same]
    by_cases hit : state.ahead.kind == kind
    · rw [if_pos hit] at clean ⊢
      rw [if_pos hit]
      exact found.follows alike.advanced clean
    · rw [if_neg hit] at clean
      exact absurd ((missed.grows _).clean clean) ((recordMissing_faulty kind).faulty alike.fresh)

instance {other : Step α} {next : Unit → Step α} [after : ∀ value, Keeps (next value)] :
    Parallel r ((modify fun state => { state with exhausted := true }) >>= next) other where
  grows _ := (outOfTurns_keeps.grows _).trans ((after ()).grows _)
  follows _ clean := nomatch (((after ()).grows _).clean clean).2

instance (start start' : Token) (turns more : Nat) :
    Parallel r (simpleLine start turns) (simpleLine start' (turns + more)) := by
  induction turns with
  | zero =>
    unfold simpleLine
    infer_instance
  | succ =>
    rw [Nat.add_right_comm]
    refine parallel_attempt ?_ fun first => ?_
    all_goals
      infer_instance

instance simpleStmts_parallel : Parallel r simpleStmts simpleStmts := by
  unfold simpleStmts
  infer_instance

end Lines

section Blocks

variable {r : Relocation} {before : List Diagnostic} {state another : State}

theorem simpleLine_nonempty {start : Token} {turns : Nat} (alike : state.Alike r before another)
    (clean : ((simpleLine start turns).run state).2.Clean) :
    ((simpleLine start turns).run state).1.isEmpty = false := by
  cases turns with
  | zero => nomatch clean.2
  | succ =>
    unfold simpleLine at clean ⊢
    rw [run_bind] at clean ⊢
    cases result : (simpleStmt.run.run state).1 with
    | none =>
      rw [result] at clean
      have giving : Keeps (do
          if !(← abandonBracket start) then skipLine (← get).budget
          return ([] : List Stmt)) := inferInstance
      obtain ⟨value, found, _⟩ := simpleStmt_parallel.follows alike ((giving.grows _).clean clean)
      cases found.symm.trans result
    | some =>
      rw [run_bind, run_aheadIs]
      split
      · rw [run_bind, run_bind, run_aheadIs]
        split <;> rfl
      · rw [run_bind]
        split <;> rfl

instance :
    ParallelParse r (liftM simpleStmts >>= fun stmts => if stmts.isEmpty then failure else pure stmts)
      (liftM simpleStmts >>= fun stmts => if stmts.isEmpty then failure else pure stmts) where
  grows state := by
    rw [run_lift_bind, run_bind]
    refine (simpleStmts_parallel.grows (r := r) state).trans ?_
    split <;> exact ⟨suffix_rfl, id⟩
  follows {_ state another} alike clean := by
    have line : (simpleStmts.run state).2.Clean := by
      rw [run_lift_bind, run_bind] at clean
      split at clean <;> exact clean
    obtain ⟨value, after⟩ := simpleStmts_parallel.follows alike line
    have some : (simpleStmts.run state).1.isEmpty = false := simpleLine_nonempty alike line
    have other : (simpleStmts.run another).1.isEmpty = false := by
      rw [value]
      exact isEmpty_map.trans some
    refine ⟨(simpleStmts.run state).1, ?_, ?_, ?_⟩
    · rw [run_lift_bind, run_bind, some]
      rfl
    · rw [run_lift_bind, run_bind, other, ← value]
      rfl
    · rw [run_lift_bind, run_bind, run_bind, some, other]
      exact after

variable {read other : ReadStmts} [Parallel r read other]

instance (turns more : Nat) : Parallel r (blockStmts read turns) (blockStmts other (turns + more)) := by
  induction turns <;> (try rw [Nat.add_right_comm]) <;> unfold blockStmts <;> infer_instance

instance : ParallelParse r (block read) (block other) := by
  unfold block
  infer_instance

instance (turns more : Nat) : ParallelParse r (ifStmt read turns) (ifStmt other (turns + more)) := by
  induction turns <;> (try rw [Nat.add_right_comm]) <;> unfold ifStmt <;> infer_instance

omit [Parallel r read other] in
instance : ParallelParse r withItem withItem := by
  unfold withItem
  refine parse_after fun _ => parse_after fun context => parse_after fun written => ?_
  cases written with
  | none =>
    dsimp only [move_none]
    infer_instance
  | some =>
    dsimp only [move_some]
    infer_instance

instance : ParallelParse r (handler read) (handler other) := by
  unfold handler
  infer_instance

instance : ParallelParse r (decorated read) (decorated other) := by
  refine @parse_turns r _ _ _ _ fun count more => parse_after fun decorators =>
    parse_after fun token => ?_
  rw [kind_move]
  split <;> infer_instance

instance : ParallelParse r (asyncStmt read) (asyncStmt other) := by
  refine parse_after fun _ => parse_after fun token => ?_
  rw [kind_move]
  split <;> infer_instance

variable (r read other) in
theorem compound?_parallel (kind : TokenKind) :
    (compound? read kind = none ∧ compound? other kind = none) ∨
      ∃ compound compound', compound? read kind = some compound ∧
        compound? other kind = some compound' ∧ ParallelParse r compound compound' := by
  unfold compound?
  split
  all_goals first
    | exact .inl ⟨rfl, rfl⟩
    | exact .inr ⟨_, _, rfl, rfl, inferInstance⟩

omit [Parallel r read other] in
instance fresh_parallel : Parallel r (modify fun state => { state with statementFaults := 0 } : Step Unit)
      (modify fun state => { state with statementFaults := 0 }) where
  grows _ := ⟨suffix_rfl, id⟩
  follows alike _ := by
    obtain ⟨tokens, reads, others⟩ := alike.tokens
    exact ⟨rfl, ⟨tokens, reads.congr, others.congr⟩, alike.depth,
      alike.nextNode, alike.budget, rfl, alike.faults⟩

instance : Parallel r (statementWith read) (statementWith other) := by
  refine parallel_after fun _ => parallel_after fun start => ?_
  rw [kind_move]
  split
  all_goals try infer_instance
  · rcases compound?_parallel r read other start.kind with
      ⟨none, none'⟩ | ⟨compound, compound', found, found', inner⟩
    · rw [none, none']
      infer_instance
    · rw [found, found']
      exact parallel_attempt inferInstance fun stmt => inferInstance

end Blocks

section

variable {r : Relocation}

instance statementWithin_parallel (fuel more : Nat) :
    Parallel r (statementWithin fuel) (statementWithin (fuel + more)) := by
  induction fuel <;> (try rw [Nat.add_right_comm]) <;> unfold statementWithin <;> infer_instance

instance moduleStmts_parallel (turns more : Nat) :
    Parallel r (moduleStmts turns) (moduleStmts (turns + more)) := by
  induction turns <;> (try rw [Nat.add_right_comm]) <;> unfold moduleStmts <;> infer_instance

end

end Parser

end Stubwise
