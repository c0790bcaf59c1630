import Stubwise.Proofs.RoundTrip.Places

namespace Stubwise.Parser

open List Expr

open Expr (Place place_same place_below)

variable {height fuel depth : Nat} {outer level : Level} {isRight : Bool}
  {tokens more rest : List Token} {expr left : Expr}

/-- There is fuel and depth left for an expression of the given height. -/
structure Room (height fuel depth : Nat) : Prop where
  fuel : 2 * height ≤ fuel
  depth : depth + 2 * height < maxDepth

theorem Room.inner (room : Room (height + 1) fuel depth) :
    ∃ less, fuel = less + 2 ∧ Room height less (depth + 2) := by
  have enough := room.fuel
  have low := room.depth
  exact ⟨fuel - 2, by omega, by omega, by omega⟩

theorem Room.mono {less high : Nat} (room : Room height less high) (more : less ≤ fuel)
    (lower : depth ≤ high) : Room height fuel depth :=
  ⟨Nat.le_trans room.fuel more, Nat.lt_of_le_of_lt (by omega) room.depth⟩

structure Readable (height : Nat) (expr : Expr) : Prop where
  starts : Starts expr.level expr.tokens
  grows : ∀ ⦃fuel depth : Nat⦄ ⦃level : Level⦄ ⦃rest : List Token⦄, Room height fuel depth →
    expr.Fits level → expr.level ≠ .named → Behind expr.level.follow rest →
    Grows (expressionWithin fuel) (depth + 1) level expr.tokens rest expr
  reads : ∀ ⦃fuel depth : Nat⦄ ⦃level : Level⦄ ⦃rest : List Token⦄, Room height fuel depth →
    expr.Fits level → level ≤ expr.level.follow → Behind level rest →
    ReadsAs (expressionWithin (fuel + 1)) depth level expr.tokens rest expr

namespace Readable

theorem enclosed (readable : Readable height expr) (room : Room height fuel depth) (some : rest ≠ []) :
    Accepts (operand (expressionWithin (fuel + 1))) depth
      (between .openParen expr.tokens .closeParen ++ rest) rest (Like expr) := by
  have place : Place .named false .named := place_same (by decide)
  have bare := expr.needsParens_named
  have reads := readable.reads room (place.fits bare) (place.follows bare)
    (behind_closing .closeParen rfl some)
  exact operand_parenthesis (parenthesized_accepts reads readable.starts some)

theorem stands (readable : Readable height expr) (room : Room (height + 1) fuel depth)
    (place : Place outer isRight level) :
    Stands (expressionWithin fuel) (depth + 1) outer isRight level expr := by
  obtain ⟨less, rfl, inner⟩ := room.inner
  have low := inner.depth
  refine ⟨readable.starts.enclose outer isRight, fun rest behind => ?_⟩
  rw [tokensAt, encloseTokens]
  split
  · refine Grows.reads (grows_operand ?_) behind (by omega)
    exact readable.enclosed inner behind.ne_nil
  · rename_i bare
    replace bare := Bool.eq_false_iff.mpr bare
    exact readable.reads (inner.mono (Nat.le_succ _) (Nat.le_succ _)) (place.fits bare)
      (place.follows bare) behind

theorem leans {bound : Level} (readable : Readable height expr) (room : Room (height + 1) fuel depth)
    (follows : expr.needsParens outer isRight = false → bound ≤ expr.level.follow)
    (tighter : level < bound) (tight : .named < bound) (behind : Behind bound rest) :
    Grows (expressionWithin fuel) (depth + 1) level (expr.tokensAt outer isRight) rest expr := by
  obtain ⟨less, rfl, inner⟩ := room.inner
  rw [tokensAt, encloseTokens]
  split
  · refine grows_operand ?_
    exact readable.enclosed (inner.mono (Nat.le_succ _) (Nat.le_succ _)) behind.ne_nil
  · rename_i bare
    have above := follows (Bool.eq_false_iff.mpr bare)
    have most : bound ≤ expr.level := Nat.le_trans above (Level.follow_le _)
    have other : expr.level ≠ .named := Nat.ne_of_gt (Nat.lt_of_lt_of_le tight most)
    refine readable.grows (inner.mono (by omega) (by omega)) ?_ other
      (behind.mono above)
    exact ⟨fun _ => Nat.lt_of_lt_of_le tighter most, fun same => absurd same other⟩

theorem of_grows (starts : Starts expr.level expr.tokens)
    (grows : ∀ ⦃fuel depth : Nat⦄ ⦃level : Level⦄ ⦃rest : List Token⦄, Room height fuel depth →
      expr.Fits level → Behind expr.level.follow rest →
      Grows (expressionWithin fuel) (depth + 1) level expr.tokens rest expr) :
    Readable height expr where
  starts := starts
  grows _ _ _ _ room fits _ behind := grows room fits behind
  reads fuel depth level rest room fits follows behind := by
    have low := room.depth
    exact (grows room fits (behind.mono follows)).reads behind (by omega)

theorem of_operand (starts : Starts expr.level expr.tokens)
    (accepts : ∀ ⦃fuel depth : Nat⦄ ⦃rest : List Token⦄, Room height fuel depth →
      Behind expr.level.follow rest →
      Accepts (operand (expressionWithin fuel)) (depth + 1) (expr.tokens ++ rest) rest (Like expr)) :
    Readable height expr :=
  of_grows starts fun _ _ _ _ room _ behind => grows_operand (accepts room behind)

theorem of_extension (readable : Readable height left) (starts : Starts expr.level expr.tokens)
    (shape : expr.tokens = left.tokensAt outer false ++ more) (extended : expr.isExtended)
    (follows : left.needsParens outer false = false → expr.level ≤ left.level.follow)
    (nonempty : more ≠ []) (operates : ∀ ⦃rest : List Token⦄, Behind expr.level.follow rest →
      Operates expr.level (more ++ rest))
    (extension : ∀ ⦃fuel depth : Nat⦄ ⦃rest : List Token⦄, Room (height + 1) fuel depth →
      Behind expr.level.follow rest → ∀ found : Expr, found.unmarked = left.unmarked →
      Accepts (extend (expressionWithin fuel) found) (depth + 1) (more ++ rest) rest (Like expr)) :
    Readable (height + 1) expr := by
  have other : expr.level ≠ .named := fun same =>
    level_of_isExtended extended (by rw [same]; decide)
  have tight := Nat.lt_of_le_of_ne expr.named_le_level other.symm
  refine of_grows starts fun fuel depth level rest room fits loose => ?_
  have tighter := fits.tighter extended
  have operator := operates loose
  rw [shape]
  exact (readable.leans room follows tighter tight operator.toBehind).extend nonempty operator
    tighter (extension room loose)

end Readable

section Operands

variable {mark : Mark} {elements : List Expr}

theorem readable_list (plain : (list mark elements .load).Plain (height + 1))
    (each : ∀ element ∈ elements, Readable height element) :
    Readable (height + 1) (.list mark elements .load) := by
  refine .of_operand (starts_plain plain) fun fuel depth rest room behind => ?_
  rw [tokens, tokenLists_eq_map]
  refine operand_list (fun element member => ?_) behind.ne_nil
  exact (each element member).stands room (place_same (by decide))

theorem tokens_tuple (mark : Mark) (elements : List Expr) : ∃ inner,
    (tuple mark elements .load).tokens = between .openParen inner .closeParen := by
  cases elements with
  | nil => exact ⟨_, rfl⟩
  | cons _ others => cases others <;> exact ⟨_, rfl⟩

theorem readable_tuple (plain : (tuple mark elements .load).Plain (height + 1))
    (each : ∀ element ∈ elements, Readable height element) :
    Readable (height + 1) (.tuple mark elements .load) := by
  refine .of_operand (starts_plain plain) fun fuel depth rest room behind => ?_
  have accepts : Accepts (parenthesized (expressionWithin fuel)) (depth + 1)
      ((tuple mark elements .load).tokens ++ rest) rest
      (Like (.tuple mark elements .load)) := by
    refine tuple_accepts (fun element member => ?_) behind.ne_nil
    exact (each element member).stands room (place_same (by decide))
  obtain ⟨inner, shape⟩ := tokens_tuple mark elements
  rw [shape] at accepts ⊢
  exact operand_parenthesis accepts

theorem readable_set (plain : (set mark elements).Plain (height + 1)) (some : elements ≠ [])
    (each : ∀ element ∈ elements, Readable height element) :
    Readable (height + 1) (.set mark elements) := by
  refine .of_operand (starts_plain plain) fun fuel depth rest room behind => ?_
  rw [tokens, tokenLists_eq_map]
  refine operand_brace (setDisplay_accepts (fun element member => ?_) some behind.ne_nil)
  exact (each element member).stands room (place_same (by decide))

theorem readable_dict {items : List DictItem} (plain : (dict mark items).Plain (height + 1))
    (keys : ∀ item ∈ items, ∀ key ∈ item.key, Readable height key)
    (values : ∀ item ∈ items, Readable height item.value) :
    Readable (height + 1) (.dict mark items) := by
  refine .of_operand (starts_plain plain) fun fuel depth rest room behind => ?_
  rw [tokens, DictItem.itemTokens_eq_map]
  refine operand_brace (dictDisplay_accepts (fun item member => ?_) behind.ne_nil)
  have value := values item member
  have key := keys item member
  obtain ⟨key?, found⟩ := item
  cases key? with
  | none => exact .spread (value.stands room (place_below (by decide) (by decide)))
  | some found =>
    have key := key found rfl
    exact .keyed (key.stands room (place_below (by decide) (by decide)))
      (key.stands room (place_same (by decide))) (value.stands room (place_same (by decide)))

theorem readable_unary {op : UnaryOp} (plain : (unary mark op expr).Plain (height + 1))
    (readable : Readable height expr) : Readable (height + 1) (.unary mark op expr) := by
  refine .of_operand (starts_plain plain) fun fuel depth rest room behind => ?_
  have loose : Behind op.level rest := by cases op <;> exact behind
  exact operand_unary (readable.stands room (place_same (by cases op <;> decide))) loose

theorem readable_lambda (plain : (lambda mark .empty expr).Plain (height + 1))
    (readable : Readable height expr) : Readable (height + 1) (.lambda mark .empty expr) := by
  refine .of_operand (starts_plain plain) fun fuel depth rest room behind => ?_
  exact operand_lambda (readable.stands room (place_same (by decide))) behind

theorem readable_await (plain : (await mark expr).Plain (height + 1))
    (readable : Readable height expr) : Readable (height + 1) (.await mark expr) := by
  refine .of_operand (starts_plain plain) fun fuel depth rest room behind => ?_
  exact operand_await (readable.stands room (place_same (by decide))) behind

theorem readable_named {target : Mark} {id : String}
    (plain : (named mark target id expr).Plain (height + 1)) (word : isName id)
    (readable : Readable height expr) : Readable (height + 1) (.named mark target id expr) where
  starts := starts_plain plain
  grows _ _ _ _ _ _ other := absurd rfl other
  reads fuel depth level rest room fits follows behind := by
    have low := room.depth
    obtain rfl := fits.bound rfl
    exact expressionWith_accepts (by omega) (namedOperand_accepts word
      (readable.stands room (place_same (by decide))) (behind.mono (by decide)))

end Operands

section Extensions

variable {mark : Mark}

theorem readable_binary {op : BinaryOp} {right : Expr}
    (plain : (binary mark op left right).Plain (height + 1)) (first : Readable height left)
    (second : Readable height right) : Readable (height + 1) (.binary mark op left right) := by
  refine first.of_extension (starts_plain plain) rfl rfl binary_left (cons_ne_nil _ _)
    (fun rest behind => ?_) fun fuel depth rest room behind found same => ?_
  · exact operates_token (bindingLevel_symbol op) (by cases op <;> decide)
      (append_ne_nil_of_right_ne_nil _ behind.ne_nil)
  · exact extend_binary same rfl (second.stands room (place_binary op)) (by cases op <;> exact behind)

theorem readable_boolean {op : BoolOp} {second : Expr} {others : List Expr}
    (plain : (boolean mark op (left :: second :: others)).Plain (height + 1))
    (apart : ∀ inner values, left ≠ .boolean inner op values)
    (each : ∀ value ∈ left :: second :: others, Readable height value) :
    Readable (height + 1) (.boolean mark op (left :: second :: others)) := by
  obtain ⟨first, later⟩ := forall_mem_cons.mp each
  have some := ((later second mem_cons_self).starts.enclose op.level true).ne_nil
  have shape : (boolean mark op (left :: second :: others)).tokens = left.tokensAt op.level false ++
        (second :: others).flatMap (op.keyword.token :: ·.tokensAt op.level true) := by
    rw [tokens, tokenLists_eq_map, flatMap_map]
    rfl
  refine first.of_extension (starts_plain plain) shape rfl
    (fun bare => boolean_left bare apart) (cons_ne_nil _ _)
    (fun rest behind => operates_chain some) fun fuel depth rest room behind found same => ?_
  refine extend_boolean same (fun value member => ?_) (cons_ne_nil _ _) behind
  exact (later value member).stands room (place_boolean op)

theorem readable_compare {comparisons : List Comparison}
    (plain : (compare mark left comparisons).Plain (height + 1)) (first : Readable height left)
    (some : comparisons ≠ []) (each : ∀ comparison ∈ comparisons, Readable height comparison.operand) :
    Readable (height + 1) (.compare mark left comparisons) := by
  obtain ⟨comparison, others, rfl⟩ := exists_cons_of_ne_nil some
  have operand := (each comparison mem_cons_self).starts.enclose Level.bitOr false
  have shape : (compare mark left (comparison :: others)).tokens =
      left.tokensAt Level.bitOr false ++ (comparison :: others).flatMap Comparison.tokens := by
    rw [tokens, Comparison.comparisonTokens_eq_flatMap]
    rfl
  refine first.of_extension (starts_plain plain) shape rfl (fun bare => ?_) ?_
    (fun rest behind => operates_comparisons operand.ne_nil)
    fun fuel depth rest room behind found same => ?_
  · exact Level.le_follow_of_lt (level_ge_of_needsParens bare)
  · simp [Comparison.tokens, operand.ne_nil]
  · refine extend_compare same (fun comparison member => ?_) some behind
    exact (each comparison member).stands room (place_below (by decide) (by decide))

theorem readable_conditional {test orElse : Expr}
    (plain : (conditional mark test left orElse).Plain (height + 1))
    (condition : Readable height test) (first : Readable height left) (second : Readable height orElse) :
    Readable (height + 1) (.conditional mark test left orElse) := by
  have shape : (conditional mark test left orElse).tokens = left.tokensAt Level.or false ++
      Keyword.if_.token :: (test.tokensAt Level.or false ++
        Keyword.else_.token :: orElse.tokensAt Level.conditional false) := by
    rw [tokens, append_assoc]
    rfl
  refine first.of_extension (starts_plain plain) shape rfl (fun bare => ?_) (cons_ne_nil _ _)
    (fun rest behind => ?_) fun fuel depth rest room behind found same => ?_
  · exact Level.le_follow_of_lt (level_ge_of_needsParens bare)
  · refine operates_token ?_ ?_ (append_ne_nil_of_right_ne_nil _ behind.ne_nil) <;>
      rw [Keyword.token_kind]
    · rfl
    · decide
  · rw [cons_append, append_assoc, cons_append]
    exact extend_conditional same (condition.stands room (place_below (by decide) (by decide)))
      (second.stands room (place_below (by decide) (by decide))) behind

theorem readable_trailer {symbol : Symbol} {more : List Token} (first : Readable height left)
    (starts : Starts expr.level expr.tokens) (extended : expr.isExtended)
    (atom : expr.level = .atom) (listed : symbol ∈ [.openParen, .openBracket, .dot])
    (shape : expr.tokens = left.tokensAt .atom false ++ symbol.token :: more)
    (extension : ∀ ⦃fuel depth : Nat⦄ ⦃rest : List Token⦄, Room (height + 1) fuel depth →
      rest ≠ [] → ∀ found : Expr, found.unmarked = left.unmarked →
      Accepts (extend (expressionWithin fuel) found) (depth + 1) (symbol.token :: more ++ rest) rest
        (Like expr)) :
    Readable (height + 1) expr := by
  have each : ∀ symbol ∈ [Symbol.openParen, .openBracket, .dot],
      bindingLevel (.symbol symbol) = Level.atom ∧ TokenKind.symbol symbol ∉ [.string, .fstring,
        .keyword .for_, .keyword .async_, .symbol .walrus, .symbol .assign, .keyword .not_] := by
    decide
  obtain ⟨binds, other⟩ := each symbol listed
  refine first.of_extension starts shape extended (fun bare => ?_) (cons_ne_nil _ _)
    (fun rest behind => ?_) fun fuel depth rest room behind => extension room behind.ne_nil
  · rw [atom]
    exact atom_left bare
  · rw [atom]
    exact operates_token binds other (append_ne_nil_of_right_ne_nil _ behind.ne_nil)

theorem readable_call {args : List Expr} {keywords : List NamedArg}
    (plain : (call mark left args keywords).Plain (height + 1))
    (function : Readable height left) (each : ∀ arg ∈ args, Readable height arg)
    (words : ∀ arg ∈ keywords, arg.name = "" ∨ isName arg.name = true)
    (values : ∀ arg ∈ keywords, Readable height arg.value) :
    Readable (height + 1) (.call mark left args keywords) := by
  have shape : (call mark left args keywords).tokens = left.tokensAt Level.atom false ++
      between .openParen (commaTokens (args.map (tokensAt Level.named false) ++
        keywords.map NamedArg.tokens)) .closeParen := by
    rw [tokens, tokenLists_eq_map, NamedArg.keywordTokens_eq_map]
    rfl
  refine readable_trailer function (starts_plain plain) rfl rfl (by decide) shape
    fun fuel depth rest room some found same => extend_call same (fun arg member => ?_) some
  rcases mem_append.mp member with positional | keyword
  · obtain ⟨value, listed, rfl⟩ := mem_map.mp positional
    exact .positional ((each value listed).stands room (place_same (by decide)))
  · obtain ⟨⟨mark, name, value⟩, listed, rfl⟩ := mem_map.mp keyword
    have stands : Stands (expressionWithin fuel) (depth + 1) .test false .test value :=
      (values _ listed).stands room (place_same (by decide))
    rcases words _ listed with empty | word
    · obtain rfl : name = "" := empty
      exact .spread stands
    · exact .keyword word stands

theorem readable_access {attr : String} (plain : (access mark left attr .load).Plain (height + 1))
    (readable : Readable height left) (word : isName attr) :
    Readable (height + 1) (.access mark left attr .load) :=
  readable_trailer readable (starts_plain plain) rfl rfl (by decide) rfl
    fun _ _ _ _ _ _ same => extend_access same word

theorem readable_subscript {index : Expr} (plain : (subscript mark left index .load).Plain (height + 1))
    (readable : Readable height left) (inner : Readable height index) :
    Readable (height + 1) (.subscript mark left index .load) := by
  have shape : (subscript mark left index .load).tokens = left.tokensAt Level.atom false ++
      between .openBracket (index.tokensAt Level.named false) .closeBracket := by
    rw [tokensAt_named, tokens]
    rfl
  refine readable_trailer readable (starts_plain plain) rfl rfl (by decide) shape
    fun fuel depth rest room some found same => ?_
  exact extend_subscript same (inner.stands room (place_same (by decide))) some

end Extensions

theorem readable_plain (plain : expr.Plain height) : Readable height expr := by
  induction plain with
  | name word =>
    exact .of_operand (starts_word word nofun) fun _ _ _ _ _ => operand_name word
  | constant written =>
    exact .of_operand (starts_constant written) fun _ _ _ _ => operand_constant written
  | list each ih => exact readable_list (.list each) ih
  | tuple parenthesized each ih => exact readable_tuple (.tuple parenthesized each) ih
  | set some each ih => exact readable_set (.set some each) some ih
  | dict keys values ihKeys ihValues => exact readable_dict (.dict keys values) ihKeys ihValues
  | named word plain ih => exact readable_named (.named word plain) word ih
  | unary plain ih => exact readable_unary (.unary plain) ih
  | lambda plain ih => exact readable_lambda (.lambda plain) ih
  | await plain ih => exact readable_await (.await plain) ih
  | binary first second ihFirst ihSecond =>
    exact readable_binary (.binary first second) ihFirst ihSecond
  | boolean each apart ih => exact readable_boolean (.boolean each apart) apart ih
  | compare first some each ihFirst ihEach =>
    exact readable_compare (.compare first some each) ihFirst some ihEach
  | conditional condition first second ihCondition ihFirst ihSecond =>
    exact readable_conditional (.conditional condition first second) ihCondition ihFirst ihSecond
  | call function each words values ihFunction ihEach ihValues =>
    exact readable_call (.call function each words values) ihFunction ihEach words ihValues
  | access plain word apart ih => exact readable_access (.access plain word apart) ih word
  | subscript plain inner apart ih ihInner =>
    exact readable_subscript (.subscript plain inner apart) ih ihInner

end Stubwise.Parser
