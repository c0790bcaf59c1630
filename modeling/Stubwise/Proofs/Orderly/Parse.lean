import Stubwise.Proofs.Orderly.Fault
import Stubwise.Proofs.Orderly.Tree
import Stubwise.Proofs.Parser.Recovery
import Stubwise.Proofs.Parser.Supply

/-!
Reading of expressions is orderly: every expression that is given is proper, also where the text has
faults, and no fault blames a context.
-/

namespace Stubwise.Parser

open Parameters

set_option synthInstance.maxSize 400000

instance : Propriety State := ⟨fun state => proper state.faults⟩

section Steps

variable {α : Type} [Propriety α]

theorem orderly_of_faults [every : AllProper α] {step : Step α}
    (same : ∀ state : State, (step.run state).2.faults = state.faults) : Orderly step where
  yields state before := by
    refine ⟨every.all _, ?_⟩
    show proper (step.run state).2.faults
    rw [same]
    exact before

instance : Orderly (modify fun state => { state with exhausted := true } : Step Unit) :=
  orderly_of_faults fun _ => rfl

instance : Orderly advance := orderly_of_faults fun _ => rfl

instance [AllProper α] {step : Step α} [looks : Looks step] : Orderly step :=
  orderly_of_faults fun state => by
    obtain ⟨_, same⟩ := looks.same state
    rw [same]

instance : Orderly kindAfterAhead := orderly_of_faults fun _ => rfl

instance (code : Code) (token : Token) (message : String) [known : Proper code] :
    Orderly (record code token message) where
  yields state before := by
    refine ⟨trivial, ?_⟩
    show proper (if state.statementFaults == 0 then _ else state.faults)
    split
    · have others : Proper state.faults := ⟨before⟩
      exact (cons_proper (_ : Diagnostic) state.faults).holds
    · exact before

instance (kind : TokenKind) : Orderly (tryExpect kind) := by
  unfold tryExpect
  infer_instance

end Steps

section Parses

variable {α : Type} [Propriety α]

instance reject_orderly (code : Code) (token : Token) (message : String) [Proper code] :
    Orderly (reject code token message : Parse α) := by
  unfold reject
  infer_instance

instance {β : Type} (code : Code) (token : Token) (message : String)
    [Proper code] {next : β → Parse α} : Orderly (reject code token message >>= next) :=
  orderly_from (@reject_orderly β ⟨fun _ => False⟩ code token message _).yields fun _ never => never.elim

instance (token : Token) : Orderly (unexpected token : Parse α) := by
  unfold unexpected
  infer_instance

instance : Orderly (outOfTurns : Parse α) where
  yields state before := by
    have run : (outOfTurns : Parse α).run.run state = (none, { state with exhausted := true }) := rfl
    exact ⟨none_proper.holds, before⟩

instance (kind : TokenKind) : Orderly (expect kind) := by
  unfold expect
  infer_instance

section Loops

variable (turns : Nat) {test : Step Bool} [Orderly test] {item : Parse α} [Orderly item]

instance (stops : TokenKind → Bool) : Orderly (itemsAfterCommas stops item turns) := by
  induction turns <;> unfold itemsAfterCommas <;> infer_instance

instance : Orderly (itemsWhile test item turns) := by
  induction turns <;> unfold itemsWhile <;> infer_instance

instance : Orderly (itemsBetween test item turns) := by
  induction turns <;> unfold itemsBetween <;> infer_instance

instance [∀ a : α, Proper a] (add : α → Token → α) (soFar : α) :
    Orderly (tokensWhile test add turns soFar) := by
  induction turns generalizing soFar <;> unfold tokensWhile <;> infer_instance

end Loops

end Parses

section Operands

variable {read : ReadExpr} [∀ level, Orderly (read level)]
  (turns : Nat) (level : Level) (close : Symbol)

instance : Propriety ParamsSoFar := ⟨fun soFar => proper soFar.params⟩

instance (params : Parameters) (seenStar seenSlash : Bool)
    [known : Proper params] : Proper ({ params, seenStar, seenSlash } : ParamsSoFar) :=
  ⟨known.holds⟩

instance (soFar : ParamsSoFar) [known : Proper soFar] : Proper soFar.params := ⟨known.holds⟩

instance empty_proper : Proper empty := by
  unfold empty
  infer_instance

section

variable (hints : Bool) (soFar : ParamsSoFar) [Proper soFar]

instance : Orderly (addPlain read hints soFar) := by
  unfold addPlain
  dsimp only
  split <;> infer_instance

instance : Orderly (addPart read hints soFar) := by
  refine orderly_bind fun token _ => ?_
  split <;> infer_instance

end

instance (hints : Bool) (soFar : ParamsSoFar) [known : Proper soFar] :
    Orderly (moreParameters read close hints turns soFar) := by
  induction turns generalizing soFar <;> unfold moreParameters <;> infer_instance

theorem target_yields (context : Context) (expr : Expr) [known : Proper expr] :
    Accountable.Yields (Expr.Stands context) (target context expr) := by
  unfold target
  split
  · rename_i made
    exact Accountable.pure (Expr.asTarget_stands known.holds made)
  · exact (@reject_orderly _ ⟨Expr.Stands context⟩ _ _ _ _).yields

instance {α : Type} [Propriety α] {context : Context} {expr : Expr} [Proper expr] {next : Expr → Parse α}
    [later : ∀ target : { target : Expr // target.Stands context }, Orderly (next target)] :
    Orderly (target context expr >>= next) :=
  orderly_from (target_yields context expr) fun target stands => later ⟨target, stands⟩

theorem targetList_yields : Accountable.Yields (Expr.Stands .store) (targetList read) := by
  refine yields_after fun start _ => yields_after fun first _ => yields_after fun comma _ => ?_
  split
  · refine yields_after fun turns _ => yields_after fun rest _ => yields_after fun mark _ => ?_
    exact target_yields .store _
  · exact target_yields .store _

instance {α : Type} [Propriety α] {next : Expr → Parse α}
    [later : ∀ target : { target : Expr // target.Stands .store }, Orderly (next target)] :
    Orderly (targetList read >>= next) :=
  orderly_from targetList_yields fun target stands => later ⟨target, stands⟩

instance : Orderly clauseAhead := by
  unfold clauseAhead
  infer_instance

instance : Orderly (clause read) := by
  unfold clause
  infer_instance

instance : Orderly (expressionOnly read) := by
  unfold expressionOnly
  infer_instance

instance {α : Type} [Propriety α] {stream : TokenStream} {budget : Nat}
    {parse : Parse α} [inner : Orderly parse] : Orderly (onStream stream budget parse) where
  yields state before := by
    exact inner.yields (state.onStream stream budget) before

instance (position : Position) (sources : List String) : Orderly (embeddedAll read position sources) := by
  induction sources <;> unfold embeddedAll <;> infer_instance

instance : Propriety StringPieces := ⟨fun pieces => proper pieces.values⟩

instance (text : String) (values : List Expr) (isFormatted : Bool)
    [known : Proper values] : Proper ({ text, values, isFormatted } : StringPieces) :=
  ⟨known.holds⟩

instance (pieces : StringPieces) [known : Proper pieces] : Proper pieces.values := ⟨known.holds⟩

instance (pieces : StringPieces) [Proper pieces] : Orderly (stringPieces read turns pieces) := by
  induction turns generalizing pieces <;> unfold stringPieces <;> infer_instance

instance : Orderly (operand read) := by
  refine orderly_bind fun token _ => ?_
  split <;> infer_instance

end Operands

section Expressions

variable {read : ReadExpr} [∀ level, Orderly (read level)]
  (turns : Nat) (level : Level)

instance : Orderly compareOperator := by
  refine orderly_bind fun token _ => ?_
  split <;> infer_instance

instance : Propriety CallArg := ⟨fun
    | .positional value => proper value
    | .keyword arg => proper arg⟩

instance (value : Expr) [known : Proper value] : Proper (CallArg.positional value) := ⟨known.holds⟩

instance (arg : NamedArg) [known : Proper arg] : Proper (CallArg.keyword arg) := ⟨known.holds⟩

instance positional?_proper (arg : CallArg) [known : Proper arg] : Proper arg.positional? := by
  cases arg with
  | positional value =>
    have value_proper : Proper value := ⟨known.holds⟩
    exact inferInstanceAs (Proper (some value))
  | keyword => exact inferInstanceAs (Proper (none : Option Expr))

instance keyword?_proper (arg : CallArg) [known : Proper arg] : Proper arg.keyword? := by
  cases arg with
  | positional => exact inferInstanceAs (Proper (none : Option NamedArg))
  | keyword arg =>
    have arg_proper : Proper arg := ⟨known.holds⟩
    exact inferInstanceAs (Proper (some arg))

section

variable (left : Expr) [Proper left]

instance : Orderly (extend read left) := by
  refine orderly_bind fun token _ => ?_
  dsimp only
  split <;> try infer_instance
  split <;> infer_instance

instance : Orderly (namedExpr read left) := by
  unfold namedExpr
  split <;> infer_instance

end

instance (left : Expr) [Proper left] : Orderly (extendAll read level turns left) := by
  induction turns generalizing left <;> unfold extendAll <;> infer_instance

instance : Orderly enter := by
  have counted : Orderly (modify fun state => { state with depth := state.depth + 1 } :
      Parse Unit) := ⟨fun _ before => ⟨fun _ _ => trivial, before⟩⟩
  have depth : Orderly (get : Parse State) :=
    ⟨fun _ before => ⟨fun _ found => Option.mem_some.mp found ▸ before, before⟩⟩
  unfold enter
  infer_instance

instance : Orderly leave := orderly_of_faults fun _ => rfl

instance {α : Type} [Propriety α] {parse : Parse α} [Orderly parse] : Orderly (andLeave parse) := by
  have lifted : Orderly (OptionT.lift parse.run : Parse (Option α)) :=
    inferInstanceAs (Orderly (liftM parse.run : Parse (Option α)))
  refine orderly_option ?_ fun value _ => ?_
  all_goals infer_instance

end Expressions

instance (fuel : Nat) (level : Level) : Orderly (expressionWithin fuel level) := by
  induction fuel generalizing level <;> unfold expressionWithin <;> infer_instance

section Simple

theorem single_target_yields (context : Context) (expr : Expr) [known : Proper expr]
    (single : expr.isSingleTarget) :
    Accountable.Yields (fun target => target.Stands context ∧ target.isSingleTarget)
      (target context expr) := by
  unfold target
  split
  · rename_i made
    refine Accountable.pure ⟨Expr.asTarget_stands known.holds made, ?_⟩
    cases expr <;> simp_all [Expr.isSingleTarget, Expr.asTarget]
    all_goals
      subst made
      rfl
  · exact (@reject_orderly _ ⟨fun _ => _⟩ _ _ _ _).yields

theorem orderly_single_target {α : Type} [Propriety α] {context : Context} {expr : Expr}
    [Proper expr] {next : Expr → Parse α} (single : expr.isSingleTarget)
    (later : ∀ target : { target : Expr // target.Stands context ∧ target.isSingleTarget },
      Orderly (next target)) : Orderly (target context expr >>= next) :=
  orderly_from (single_target_yields context expr single) fun target made => later ⟨target, made⟩

theorem targets_yield (context : Context) (exprs : List Expr) [Proper exprs] :
    Accountable.Yields (fun targets => ∀ target ∈ targets, Expr.Stands context target)
      (exprs.mapM (target context)) :=
  yields_mapM fun expr member =>
    have : Proper expr := Proper.of_mem member
    target_yields context expr

instance {α : Type} [Propriety α] {context : Context} {exprs : List Expr}
    [Proper exprs] {next : List Expr → Parse α}
    [later : ∀ targets : { targets : List Expr // ∀ target ∈ targets, target.Stands context },
      Orderly (next targets)] : Orderly (exprs.mapM (target context) >>= next) :=
  orderly_from (targets_yield context exprs) fun targets stand => later ⟨targets, stand⟩

instance : Orderly deleteStmt := by
  refine orderly_bind fun mark _ => orderly_bind fun _ _ => orderly_bind fun expr known => ?_
  split
  · rename_i elements _
    have parts : Proper elements := ⟨known.holds.elements rfl rfl⟩
    infer_instance
  · infer_instance

instance (first : Expr) [Proper first] : Orderly (augAssignStmt first) := by
  unfold augAssignStmt
  split
  · infer_instance
  · rename_i single
    exact orderly_single_target (by simpa using single) fun _ => inferInstance

instance (start : Token) (first : Expr) [Proper first] : Orderly (annAssignStmt start first) := by
  unfold annAssignStmt
  split
  · infer_instance
  · rename_i single
    exact orderly_single_target (by simpa using single) fun _ => inferInstance

instance (inParens : Bool) (turns : Nat) : Orderly (fromNames inParens turns) := by
  induction turns <;> unfold fromNames <;> infer_instance

instance : Orderly simpleStmt := by
  refine orderly_bind fun token _ => ?_
  split <;> infer_instance

instance (start : Token) : Orderly (abandonBracket start) := by
  refine orderly_of_faults fun state => ?_
  rw [run_abandonBracket]
  split <;> rfl

instance (turns : Nat) : Orderly (skipLine turns) := by
  induction turns <;> unfold skipLine <;> infer_instance

instance (start : Token) (turns : Nat) : Orderly (simpleLine start turns) := by
  induction turns with
  | zero =>
    unfold simpleLine
    infer_instance
  | succ =>
    refine orderly_option ?_ fun first _ => ?_
    all_goals infer_instance

instance : Orderly simpleStmts := by
  unfold simpleStmts
  infer_instance

end Simple

section Compound

instance (turns level : Nat) : Orderly (skipBlock turns level) := by
  induction turns generalizing level with
  | zero =>
    unfold skipBlock
    infer_instance
  | succ =>
    refine orderly_bind fun token _ => ?_
    split <;> infer_instance

instance : Orderly withItem := by
  refine orderly_bind fun _ _ => orderly_bind fun context _ => ?_
  all_goals infer_instance

variable {read : ReadStmts} [Orderly read]

instance (turns : Nat) : Orderly (blockStmts read turns) := by
  induction turns <;> unfold blockStmts <;> infer_instance

instance : Orderly (block read) := by
  unfold block
  infer_instance

instance (turns : Nat) : Orderly (ifStmt read turns) := by
  induction turns <;> unfold ifStmt <;> infer_instance

instance : Orderly (handler read) := by
  unfold handler
  infer_instance

instance : Orderly (decorated read) := by
  refine orderly_bind fun turns _ => orderly_bind fun decorators _ => orderly_bind fun token _ => ?_
  split <;> infer_instance

instance : Orderly (asyncStmt read) := by
  refine orderly_bind fun _ _ => orderly_bind fun token _ => ?_
  split <;> infer_instance

theorem compound?_orderly {kind : TokenKind} {compound : Parse Stmt}
    (found : compound? read kind = some compound) : Orderly compound := by
  unfold compound? at found
  split at found
  case h_10 => cases found
  all_goals
    cases found
    infer_instance

instance : Orderly (statementWith read) := by
  have reset : Orderly (modify fun state => { state with statementFaults := 0 } : Step Unit) :=
    orderly_of_faults fun _ => rfl
  refine orderly_bind fun _ _ => orderly_bind fun start _ => ?_
  split <;> try infer_instance
  split
  · infer_instance
  · rename_i found
    have inner := compound?_orderly found
    infer_instance

end Compound

instance (fuel : Nat) : Orderly (statementWithin fuel) := by
  induction fuel <;> unfold statementWithin <;> infer_instance

instance moduleStmts_orderly (turns : Nat) : Orderly (moduleStmts turns) := by
  induction turns <;> unfold moduleStmts <;> infer_instance

end Stubwise.Parser

namespace Stubwise

open Parser

instance {α : Type} [Propriety α] : Propriety (Parsed α) :=
  ⟨fun parsed => proper parsed.tree ∧ proper parsed.faults⟩

instance {α : Type} [Propriety α] (parsed : Parsed α) [known : Proper parsed] :
    Proper parsed.tree :=
  ⟨known.holds.1⟩

instance {α : Type} [Propriety α] (parsed : Parsed α) [known : Proper parsed] :
    Proper parsed.faults :=
  ⟨known.holds.2⟩

theorem startText_proper (file source : String) (firstNode : Nat) :
    proper (startText file source firstNode) :=
  nil_proper.holds

instance parseModule_proper (file source : String) (firstNode : Nat) :
    Proper (parseModule file source firstNode) where
  holds := by
    have start := startText_proper file source firstNode
    obtain ⟨body, after⟩ := (moduleStmts_orderly (startText file source firstNode).budget).yields _ start
    unfold parseModule
    dsimp only
    generalize StateT.run (moduleStmts _) _ = outcome at *
    exact ⟨body, fun fault member => after fault (List.mem_reverse.mp member)⟩

instance (source : String) (firstNode : Nat) : Proper (parseExpression source firstNode) where
  holds := by
    have start := startText_proper "" source firstNode
    have read : Orderly (expressionOnly expression).run := inferInstance
    have yields := read.yields _ start
    rw [StateT.run] at yields
    unfold parseExpression
    generalize (expressionOnly expression).run (startText "" source firstNode) = outcome at *
    obtain ⟨tree, after⟩ := yields
    exact ⟨tree, fun fault member => after fault (List.mem_reverse.mp member)⟩

end Stubwise
