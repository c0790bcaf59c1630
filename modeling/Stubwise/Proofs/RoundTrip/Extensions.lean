import Stubwise.Proofs.RoundTrip.Forms

/-!
The forms of expressions that extend an operand by what stands behind it: operators, arguments,
indices and attributes.
-/

namespace Stubwise.Parser

open List Keyword

variable {op : BoolOp} {value : Expr} {comparisons : List Comparison} {values : List Expr}
  {mark : Mark} {turns : Nat} {id : String}

namespace CallArg

def tokens : CallArg → List Token
  | positional value => value.tokensAt .named false
  | keyword arg => arg.tokens

def unmarked : CallArg → CallArg
  | positional value => positional value.unmarked
  | keyword arg => keyword arg.unmarked

end CallArg

variable {read : ReadExpr} {depth : Nat} {level : Level} {tokens rest : List Token}
  {token shown : Token} {left found : Expr}

theorem bindingLevel_keyword (op : BoolOp) : bindingLevel (.keyword op.keyword) = op.level := by
  cases op <;> rfl

theorem bindingLevel_symbol (op : BinaryOp) : bindingLevel (.symbol op.symbol) = op.level := by
  cases op <;> rfl

section Operators

theorem extend_binary {op : BinaryOp} {right : Expr} {level : Level}
    (same : found.unmarked = left.unmarked) (place : level = if op == .pow then .unary else op.level)
    (stands : Stands read depth op.level true level right) (behind : Behind level rest) :
    Accepts (extend read found) depth (op.symbol.token :: (right.tokensAt op.level true ++ rest)) rest
      (Like (.binary mark op left right)) := by
  have body : Accepts (binaryExpr read op found) depth
      (op.symbol.token :: (right.tokensAt op.level true ++ rest)) rest
      (Like (.binary mark op left right)) := by
    unfold binaryExpr
    rw [← place]
    refine accepts_markCurrent fun mark _ => stands.next behind fun found last also => accepts_pure ?_
    simp only [Like, Expr.mapMarks, same, also]
  refine accepts_kind rfl fun shown kind => ?_
  cases op <;> (simp only [kind, BinaryOp.symbol, binaryOp?]; exact body)

theorem operates_chain {others : List Expr} (some : value.tokensAt op.level true ≠ []) :
    Operates op.level ((value :: others).flatMap (op.keyword.token :: ·.tokensAt op.level true) ++ rest) := by
  refine operates_token ?_ ?_ (by simp [some]) <;> rw [token_kind]
  · exact bindingLevel_keyword op
  · cases op <;> decide

theorem behind_operands (each : ∀ value ∈ values, Stands read depth op.level true op.level value)
    (behind : Behind op.level rest) :
    Behind op.level (values.flatMap (op.keyword.token :: ·.tokensAt op.level true) ++ rest) := by
  cases values with
  | nil => exact behind
  | cons value =>
    exact (operates_chain (each value mem_cons_self).starts.ne_nil).toBehind

theorem tells_chain_ends (behind : Behind op.level.follow rest) :
    Tells (aheadIs (.keyword op.keyword)) (token :: rest) false := by
  obtain ⟨first, second, others, rfl⟩ := behind.two
  refine tells_aheadIs (beq_eq_false_iff_ne.mpr fun same => ?_)
  have ordinary : first.kind ≠ .keyword .not_ := by
    rw [same]
    cases op <;> decide
  have loose := behind.loose
  rw [binding_cons ordinary, same, bindingLevel_keyword] at loose
  revert loose
  cases op <;> decide

theorem booleanOperands_accepts (each : ∀ value ∈ values, Stands read depth op.level true op.level value)
    (some : values ≠ []) (behind : Behind op.level.follow rest)
    (enough : (values.flatMap (op.keyword.token :: ·.tokensAt op.level true) ++ rest).length ≤ turns) :
    Accepts (booleanOperands read op (.keyword op.keyword) turns) depth
      (values.flatMap (op.keyword.token :: ·.tokensAt op.level true) ++ rest) rest
      fun found => found.map Expr.unmarked = values.map Expr.unmarked := by
  induction values generalizing turns with
  | nil => exact absurd rfl some
  | cons _ values ih =>
    obtain ⟨stands, later⟩ := forall_mem_cons.mp each
    have loose : op.level.follow ≤ op.level := by cases op <;> decide
    have loose := behind_operands later (behind.mono loose)
    simp only [flatMap_cons, cons_append, append_assoc, length_cons, length_append] at enough ⊢
    cases turns with
    | zero => simp at enough
    | succ =>
      unfold itemsBetween
      rw [bind_assoc]
      refine stands.next loose fun found last same => ?_
      cases values with
      | nil =>
        refine accepts_else (tells_chain_ends behind) (accepts_pure ?_)
        rw [map_singleton, same, map_singleton]
      | cons =>
        have more : (op.keyword.token.kind == .keyword op.keyword) = true := by
          rw [token_kind, beq_self_eq_true]
        refine accepts_if (tells_aheadIs more) (accepts_advance ?_)
        refine (ih later (cons_ne_nil _ _) ?_).bind fun all last list => accepts_pure ?_
        · simp only [length_append]
          omega
        · rw [map_cons, map_cons, same, list]

theorem extend_boolean (same : found.unmarked = left.unmarked)
    (each : ∀ value ∈ values, Stands read depth op.level true op.level value)
    (some : values ≠ []) (behind : Behind op.level.follow rest) :
    Accepts (extend read found) depth
      (values.flatMap (op.keyword.token :: ·.tokensAt op.level true) ++ rest) rest
      (Like (.boolean mark op (left :: values))) := by
  obtain ⟨value, values, rfl⟩ := exists_cons_of_ne_nil some
  have body : Accepts (booleanExpr read op found) depth
      ((value :: values).flatMap (op.keyword.token :: ·.tokensAt op.level true) ++ rest) rest
      (Like (.boolean mark op (left :: value :: values))) := by
    refine accepts_markCurrent fun mark shown => accepts_turns fun count enough => ?_
    rw [(kind_of_placeless shown).trans (token_kind op.keyword)]
    refine (booleanOperands_accepts each some behind enough).bind fun all last list => ?_
    refine accepts_pure ?_
    simp only [Like, Expr.mapMarks, Expr.mapAll_eq_map, map_cons, same, list]
  refine accepts_kind (token_kind op.keyword) fun shown kind => ?_
  cases op <;> (simp only [kind, BoolOp.keyword]; exact body)

theorem compareOperator_accepts (op : CompareOp) (other : token.kind ≠ .keyword .not_) :
    Accepts compareOperator depth (op.tokens ++ token :: tokens) (token :: tokens) (· = op) := by
  have operator {symbol : Symbol} {op : CompareOp} (stands : compareOp? (.symbol symbol) = some op) :
      Accepts compareOperator depth (symbol.token :: token :: tokens) (token :: tokens) (· = op) := by
    refine accepts_kind rfl fun shown (kind : shown.kind = .symbol symbol) => ?_
    simp only [kind, stands]
    exact accepts_pure rfl
  cases op with
  | less | greater | lessEqual | greaterEqual | equal | notEqual => exact operator rfl
  | isIn =>
    refine accepts_kind (token_kind .in_) fun shown kind => ?_
    simp only [kind]
    exact accepts_pure rfl
  | notIn =>
    refine accepts_kind (token_kind .not_) fun shown kind => ?_
    simp only [kind]
    exact accepts_expect (token_kind .in_) (accepts_pure rfl)
  | same =>
    refine accepts_kind (token_kind .is_) fun shown kind => ?_
    simp only [kind]
    exact accepts_else (tells_aheadIs (beq_eq_false_iff_ne.mpr other)) (accepts_pure rfl)
  | notSame =>
    refine accepts_kind (token_kind .is_) fun shown kind => ?_
    have negated : (not_.token.kind == .keyword .not_) = true := by
      rw [token_kind, beq_self_eq_true]
    simp only [kind]
    exact accepts_if (tells_aheadIs negated) (accepts_advance (accepts_pure rfl))

theorem operates_comparison (op : CompareOp) : Operates .compare (op.tokens ++ token :: tokens) := by
  cases op with
  | less | greater | lessEqual | greaterEqual | equal | notEqual =>
    exact operates_token rfl (by decide) (cons_ne_nil _ _)
  | isIn | same | notSame =>
    refine operates_token ?_ ?_ (cons_ne_nil _ _) <;> rw [token_kind]
    · rfl
    · decide
  | notIn =>
    have binds : binding (not_.token :: in_.token :: token :: tokens) =
        .compare := by
      rfl
    refine ⟨⟨⟨_, _, _, rfl⟩, Nat.le_of_eq binds, ?_⟩, binds⟩
    rintro token ⟨⟩
    decide

theorem operates_comparisons {comparison : Comparison} {others : List Comparison}
    (some : comparison.operand.tokensAt .bitOr false ≠ []) :
    Operates Level.compare ((comparison :: others).flatMap Comparison.tokens ++ rest) := by
  obtain ⟨first, more, shape⟩ := exists_cons_of_ne_nil some
  rw [flatMap_cons, Comparison.tokens, shape, append_assoc, append_assoc]
  exact operates_comparison comparison.op

theorem behind_comparisons (each : ∀ comparison ∈ comparisons,
      Stands read depth .bitOr false .compare comparison.operand)
    (behind : Behind .compare rest) :
    Behind Level.compare (comparisons.flatMap Comparison.tokens ++ rest) := by
  cases comparisons with
  | nil => exact behind
  | cons comparison =>
    exact (operates_comparisons (each comparison mem_cons_self).starts.ne_nil).toBehind

theorem tells_comparison_behind {answer : Bool} (behind : Behind level rest)
    (same : (binding rest == .compare) = answer) :
    Tells comparisonAhead (token :: rest) answer := by
  obtain ⟨first, second, others, rfl⟩ := behind.two
  rw [← same]
  exact tells_comparisonAhead

theorem comparisons_accepts (each : ∀ comparison ∈ comparisons,
      Stands read depth .bitOr false .compare comparison.operand)
    (some : comparisons ≠ []) (behind : Behind Level.compare.follow rest)
    (enough : (comparisons.flatMap Comparison.tokens ++ rest).length ≤ turns) :
    Accepts (Parser.comparisons read turns) depth (comparisons.flatMap Comparison.tokens ++ rest) rest
      fun found => found.map Comparison.unmarked = comparisons.map Comparison.unmarked := by
  induction comparisons generalizing turns with
  | nil => exact absurd rfl some
  | cons comparison comparisons ih =>
    obtain ⟨stands, later⟩ := forall_mem_cons.mp each
    obtain ⟨first, others, shape, opening⟩ := stands.starts
    have reads := stands.reads (behind_comparisons later (behind.mono (by decide)))
    have other : first.kind ≠ .keyword .not_ := fun negated =>
      absurd (opening.negation negated) (by decide)
    rw [ReadsAs, shape] at reads
    rw [flatMap_cons, Comparison.tokens, shape, append_assoc, append_assoc] at enough ⊢
    cases turns with
    | zero => simp at enough
    | succ turns =>
      unfold itemsBetween
      simp only [bind_assoc, pure_bind]
      refine (compareOperator_accepts comparison.op other).bind fun op last sameOp => ?_
      refine accepts_advance (reads.bind fun found last same => ?_)
      cases comparisons with
      | nil =>
        have ends : (binding rest == Level.compare) = false :=
          beq_eq_false_iff_ne.mpr (Nat.ne_of_lt (Nat.lt_of_le_of_lt behind.loose (by decide)))
        refine accepts_else (tells_comparison_behind behind ends) (accepts_pure ?_)
        simp only [map_cons, map_nil, Comparison.mapMarks, sameOp, same]
      | cons second comparisons =>
        have loose := behind_comparisons later (behind.mono (by decide))
        have some := (later second mem_cons_self).starts.ne_nil
        have room : ((second :: comparisons).flatMap Comparison.tokens ++ rest).length ≤ turns := by
          simp only [length_append, length_cons] at enough ⊢
          omega
        have others := ih later (cons_ne_nil _ _) room
        refine accepts_if (tells_comparison_behind loose ?_) ?_
        · rw [(operates_comparisons some).binds, beq_self_eq_true]
        obtain ⟨third, fourth, more, form⟩ := loose.two
        rw [form] at others ⊢
        refine accepts_advance (others.bind fun all last list => accepts_pure ?_)
        simp only [map_cons, list, Comparison.mapMarks, sameOp, same]

theorem extend_compareExpr (op : CompareOp) {good : Expr → Prop}
    (accepts : Accepts (compareExpr read found) depth (op.tokens ++ tokens) rest good) :
    Accepts (extend read found) depth (op.tokens ++ tokens) rest good := by
  cases op with
  | less | greater | lessEqual | greaterEqual | equal | notEqual =>
    refine accepts_current fun shown same => ?_
    rw [kind_of_placeless same]
    exact accepts
  | isIn | notIn | same | notSame =>
    unfold extend
    refine accepts_current fun shown same => ?_
    rw [kind_of_placeless same, token_kind]
    exact accepts

theorem extend_compare (same : found.unmarked = left.unmarked) (each : ∀ comparison ∈ comparisons,
      Stands read depth .bitOr false .compare comparison.operand)
    (some : comparisons ≠ []) (behind : Behind Level.compare.follow rest) :
    Accepts (extend read found) depth (comparisons.flatMap Comparison.tokens ++ rest) rest
      (Like (.compare mark left comparisons)) := by
  obtain ⟨first, others, rfl⟩ := exists_cons_of_ne_nil some
  obtain ⟨second, third, more, form⟩ := (behind_comparisons each (behind.mono (by decide))).two
  have accepts : Accepts (compareExpr read found) depth
      ((first :: others).flatMap Comparison.tokens ++ rest) rest
      (Like (.compare mark left (first :: others))) := by
    rw [form]
    refine accepts_markCurrent fun mark _ => accepts_turns fun count enough => ?_
    rw [← form] at enough ⊢
    refine (comparisons_accepts each some behind enough).bind fun found last list => accepts_pure ?_
    simp only [Like, Expr.mapMarks, Expr.mapComparisons_eq_map, same, list]
  rw [flatMap_cons, Comparison.tokens, append_assoc, append_assoc] at accepts ⊢
  exact extend_compareExpr first.op accepts

theorem extend_conditional {test orElse : Expr} (same : found.unmarked = left.unmarked)
    (condition : Stands read depth .or false .conditional test)
    (stands : Stands read depth .conditional false .test orElse) (behind : Behind .test rest) :
    Accepts (extend read found) depth (if_.token :: (test.tokensAt Level.or false ++
        else_.token :: (orElse.tokensAt Level.conditional false ++ rest))) rest
      (Like (.conditional mark test left orElse)) := by
  have loose : Behind Level.named (else_.token :: (orElse.tokensAt Level.conditional false ++ rest)) := by
    refine (operates_token ?_ ?_ (by simp [stands.starts.ne_nil])).toBehind <;> rw [token_kind]
    · rfl
    · decide
  refine accepts_kind (token_kind .if_) fun shown kind => ?_
  simp only [kind, conditionalExpr]
  refine accepts_markCurrent fun mark _ => condition.next (loose.mono (by decide)) fun test last sameTest => ?_
  refine accepts_expect (token_kind .else_) (stands.next behind fun orElse last sameElse => accepts_pure ?_)
  simp only [Like, Expr.mapMarks, same, sameTest, sameElse]

end Operators

section Trailers

theorem extend_access {attr : String} (same : found.unmarked = left.unmarked) (word : isName attr) :
    Accepts (extend read found) depth (Symbol.dot.token :: .word attr :: rest) rest
      (Like (.access mark left attr .load)) := by
  refine accepts_kind rfl fun shown kind => ?_
  simp only [kind, accessExpr]
  refine accepts_expect (word_kind word) (accepts_markCurrent fun mark shown => accepts_pure ?_)
  rw [lexeme_of_placeless shown]
  simp only [Like, Expr.mapMarks, same]
  rfl

theorem extend_subscript {index : Expr} (same : found.unmarked = left.unmarked)
    (stands : Element read depth index) (some : rest ≠ []) :
    Accepts (extend read found) depth
      (between .openBracket (index.tokensAt Level.named false) .closeBracket ++ rest) rest
      (Like (.subscript mark left index .load)) := by
  obtain ⟨first, others, shape, opening⟩ := stands.starts
  have reads := stands.reads (behind_closing .closeBracket rfl some)
  rw [ReadsAs, shape] at reads
  have item : Accepts (sliceItem read) depth
      (first :: others ++ Symbol.closeBracket.token :: rest) (Symbol.closeBracket.token :: rest)
      (Like index) := by
    refine accepts_else (tells_currentIs (opening.other (by decide))) ?_
    refine reads.bind fun found last same => ?_
    exact accepts_else (tells_aheadIs rfl) (accepts_pure same)
  rw [between_append, shape]
  refine accepts_kind rfl fun shown kind => ?_
  simp only [kind, subscriptExpr]
  refine accepts_markCurrent fun mark _ => accepts_advance (accepts_current fun start _ => ?_)
  refine item.bind fun index last also => accepts_else (tells_aheadIs rfl) ?_
  refine accepts_expect rfl (accepts_pure ?_)
  simp only [Like, Expr.mapMarks, same, also]

end Trailers

section Arguments

inductive ReadsArg (read : ReadExpr) (depth : Nat) : CallArg → Prop where
  | positional {value : Expr} (stands : Element read depth value) :
      ReadsArg read depth (.positional value)
  | spread {mark : Mark} {value : Expr} (stands : Stands read depth .test false .test value) :
      ReadsArg read depth (.keyword ⟨mark, "", value⟩)
  | keyword {mark : Mark} {name : String} {value : Expr} (word : isName name)
      (stands : Stands read depth .test false .test value) :
      ReadsArg read depth (.keyword ⟨mark, name, value⟩)

theorem Opening.positional {first : Token} {others : List Token}
    (opening : Opening level first others) (behind : Behind level rest) :
    ∃ second more, others ++ rest = second :: more ∧
      ((first.kind == .ident) && (second.kind == .symbol .assign)) = false := by
  cases others with
  | nil =>
    obtain ⟨second, third, more, rfl⟩ := behind.two
    have plain := behind.plain second rfl
    simp only [mem_cons, not_or] at plain
    exact ⟨second, third :: more, rfl, by simp [plain]⟩
  | cons second =>
    have other := fun word => opening.word word second rfl
    simpa using other

theorem callArg_accepts {arg : CallArg} (reads : ReadsArg read depth arg) (behind : Behind .named rest) :
    Accepts (callArg read) depth (arg.tokens ++ rest) rest fun found => found.unmarked = arg.unmarked := by
  cases reads with
  | positional stands =>
    obtain ⟨first, others, shape, opening⟩ := stands.starts
    obtain ⟨second, more, form, other⟩ := opening.positional behind
    have value := stands.reads behind
    rw [ReadsAs, shape, cons_append, form] at value
    rw [CallArg.tokens, shape, cons_append, form]
    refine accepts_else (tells_currentIs (opening.other (by decide))) ?_
    refine accepts_tells (tells_currentIs rfl) (accepts_tells (tells_aheadIs rfl) ?_)
    rw [other]
    refine value.bind fun found last same => ?_
    refine accepts_else (tells_clauseAhead_behind behind) (accepts_pure ?_)
    rw [CallArg.unmarked, same, CallArg.unmarked]
  | spread stands =>
    rename_i mark value
    have form : (CallArg.keyword ⟨mark, "", value⟩).tokens ++ rest =
        Symbol.power.token :: (value.tokensAt .test false ++ rest) := rfl
    rw [form]
    refine accepts_if (tells_currentIs rfl) (accepts_markCurrent fun mark _ => ?_)
    refine stands.next (behind.mono (by decide)) fun found last same => accepts_pure ?_
    simp only [CallArg.unmarked, NamedArg.mapMarks, same]
  | keyword word stands =>
    have ident := word_kind word
    rw [CallArg.tokens, NamedArg.tokens_named _ _ word, cons_append, cons_append]
    refine accepts_else (tells_currentIs ?_) ?_
    · rw [ident]
      rfl
    · refine accepts_tells (tells_currentIs rfl) (accepts_tells (tells_aheadIs rfl) ?_)
      rw [ident]
      refine accepts_markCurrent fun mark shown => ?_
      refine (exprAfterNext_accepts stands (behind.mono (by decide))).bind fun found last same =>
        accepts_pure ?_
      rw [lexeme_of_placeless shown]
      simp only [CallArg.unmarked, NamedArg.mapMarks, same]
      rfl

theorem ReadsArg.starts {arg : CallArg} (reads : ReadsArg read depth arg) :
    ∃ first others, arg.tokens = first :: others ∧ (first.kind == .symbol .closeParen) = false := by
  cases reads with
  | positional stands =>
    obtain ⟨first, others, shape, opening⟩ := stands.starts
    exact ⟨first, others, shape, opening.ne_closing rfl⟩
  | spread => exact ⟨_, _, rfl, rfl⟩
  | keyword word stands =>
    rename_i mark name value
    refine ⟨_, _, NamedArg.tokens_named mark value word, ?_⟩
    rw [word_kind word]
    rfl

theorem callArgs_accepts {args : List CallArg} (each : ∀ arg ∈ args, ReadsArg read depth arg)
    (some : rest ≠ []) :
    Accepts (callArgs read) depth
      (between .openParen (commaTokens (args.map CallArg.tokens)) .closeParen ++ rest) rest
      fun found => found.map CallArg.unmarked = args.map CallArg.unmarked := by
  rw [between_append]
  cases args with
  | nil => exact accepts_if (tells_aheadIs rfl) (accepts_advance (accepts_pure rfl))
  | cons arg args =>
    obtain ⟨reads, later⟩ := forall_mem_cons.mp each
    obtain ⟨first, others, shape, going⟩ := reads.starts
    have closing := behind_closing .closeParen rfl some
    have accepts := callArg_accepts reads (behind_items CallArg.tokens args closing)
    rw [shape] at accepts
    rw [commaTokens_cons, append_assoc, shape]
    refine accepts_else (tells_aheadIs going) (accepts_advance ?_)
    refine accepts.bind fun found last same => accepts_turns fun count enough => ?_
    refine (itemsAfterCommas_accepts (fun arg member rest behind => callArg_accepts (later arg member) behind)
      (fun arg member => (later arg member).starts) ⟨_, _, rfl, by decide⟩ closing
      enough).bind fun all last list => ?_
    refine accepts_expect rfl (accepts_pure ?_)
    rw [map_cons, same, list, map_cons]

theorem CallArg.parts_unmarked (args : List CallArg) :
    (args.filterMap (·.positional?)).map Expr.unmarked = (args.map unmarked).filterMap (·.positional?) ∧
      (args.filterMap (·.keyword?)).map NamedArg.unmarked = (args.map unmarked).filterMap (·.keyword?) := by
  induction args with
  | nil => exact ⟨rfl, rfl⟩
  | cons arg args ih => cases arg <;> simpa [unmarked, positional?, keyword?] using ih

theorem CallArg.positional_append (args : List Expr) (keywords : List NamedArg) :
    (args.map positional ++ keywords.map keyword).filterMap (·.positional?) = args := by
  simp [filterMap_map, Function.comp_def, positional?]

theorem CallArg.keyword_append (args : List Expr) (keywords : List NamedArg) :
    (args.map positional ++ keywords.map keyword).filterMap (·.keyword?) = keywords := by
  simp [filterMap_map, Function.comp_def, keyword?]

theorem extend_call {args : List Expr} {keywords : List NamedArg} (same : found.unmarked = left.unmarked)
    (each : ∀ arg ∈ args.map .positional ++ keywords.map .keyword,
      ReadsArg read depth arg) (some : rest ≠ []) :
    Accepts (extend read found) depth
      (between .openParen (commaTokens (args.map (Expr.tokensAt Level.named false) ++
        keywords.map NamedArg.tokens)) .closeParen ++ rest) rest
      (Like (.call mark left args keywords)) := by
  have texts : args.map (Expr.tokensAt Level.named false) ++ keywords.map NamedArg.tokens =
      (args.map CallArg.positional ++ keywords.map CallArg.keyword).map CallArg.tokens := by
    rw [map_append, map_map, map_map]
    rfl
  have accepts := callArgs_accepts each some
  rw [← texts, between_append] at accepts
  rw [between_append]
  refine accepts_kind rfl fun shown kind => ?_
  simp only [kind, callExpr]
  refine accepts_markCurrent fun mark _ => accepts.bind fun all last list => accepts_pure ?_
  simp only [Like, Expr.mapMarks, Expr.mapAll_eq_map, Expr.mapKeywords_eq_map,
    (CallArg.parts_unmarked all).1, (CallArg.parts_unmarked all).2, list, same]
  rw [← (CallArg.parts_unmarked _).1, ← (CallArg.parts_unmarked _).2, CallArg.positional_append,
    CallArg.keyword_append]

end Arguments

theorem name_of_unmarked {context : Context} (same : found.unmarked = (Expr.name mark id context).unmarked) :
    ∃ target, found = .name target id context := by
  cases found with
  | name target =>
    simp only [Expr.mapMarks, Expr.name.injEq, true_and] at same
    exact ⟨target, by rw [same.1, same.2]⟩
  | lambda _ params =>
    obtain ⟨posOnly, args, vararg, kwOnly, kwarg, defaults, kwDefaults⟩ := params
    cases same
  | _ => cases same

theorem namedOperand_accepts {target : Mark}
    (word : isName id) (stands : Stands read depth .test false .test value) (behind : Behind .test rest) :
    Accepts (extendedOperand read .named) depth
      (.word id :: Symbol.walrus.token :: (value.tokensAt Level.test false ++ rest)) rest
      (Like (.named mark target id value)) := by
  obtain ⟨first, others, shape, _⟩ := stands.starts
  have reads := stands.reads behind
  rw [ReadsAs, shape] at reads
  rw [shape]
  have name : Accepts (operand read) depth (.word id :: Symbol.walrus.token :: (first :: others ++ rest)) _
      (Like (.name target id .load)) := operand_name word
  refine name.bind fun found last same => accepts_turns fun count enough => ?_
  obtain ⟨target, rfl⟩ := name_of_unmarked same
  cases count with
  | zero => simp at enough
  | succ =>
    unfold extendAll
    refine accepts_tells tells_levelAhead (accepts_tells (tells_aheadIs rfl) ?_)
    refine accepts_advance (accepts_markCurrent fun mark _ => accepts_advance ?_)
    refine reads.bind fun found last same => accepts_pure ?_
    simp only [Like, Expr.mapMarks, same]

end Stubwise.Parser
