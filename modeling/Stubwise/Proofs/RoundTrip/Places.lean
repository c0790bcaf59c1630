import Stubwise.Proofs.RoundTrip.Extensions

/-!
The places of expressions. Parentheses stand around an expression wherever the tokens behind its
place would take a part of it away.
-/

namespace Stubwise

open List

namespace Level

theorem follow_le (level : Level) : level.follow ≤ level := by
  unfold follow
  split
  · exact Nat.sub_le level 1
  · exact Nat.le_refl level

theorem le_follow_of_lt {outer level : Level} (tighter : outer < level) : outer ≤ level.follow := by
  unfold follow
  split
  · exact Nat.le_sub_one_of_lt tighter
  · exact Nat.le_of_lt tighter

end Level

namespace Expr

variable {expr : Expr} {outer level : Level} {isRight : Bool}

theorem level_of_isExtended (extended : expr.isExtended) :
    expr.level ∉ [.named, .test, .not, .unary, .await] := by
  cases expr with
  | binary mark op left right | boolean mark op values =>
    rw [Expr.level]
    cases op <;> decide
  | compare | conditional | call | access | subscript =>
    simp only [Expr.level]
    decide
  | _ => cases extended

theorem needsParens_same (same : expr.level = outer) (notAtom : outer ≠ .atom)
    (notPower : outer ≠ .power) : expr.needsParens outer isRight = isRight := by
  subst same
  unfold needsParens
  have other : (expr.level == expr.level && expr.level != .atom) = true := by simpa using notAtom
  rw [if_neg (Nat.lt_irrefl expr.level), if_pos other]
  split
  · exact absurd rfl notPower
  · rfl

theorem needsParens_of_lt (tighter : outer < expr.level) : expr.needsParens outer isRight = false := by
  unfold needsParens
  have other : (expr.level == outer) = false := beq_eq_false_iff_ne.mpr (Nat.ne_of_gt tighter)
  rw [if_neg (Nat.not_lt.mpr (Nat.le_of_lt tighter)), other]
  rfl

/-- What stands bare at a place where `outer` decides on parentheses is read there at `level`. -/
structure Place (outer : Level) (isRight : Bool) (level : Level) : Prop where
  fits : ∀ ⦃expr : Expr⦄, expr.needsParens outer isRight = false → expr.Fits level
  follows : ∀ ⦃expr : Expr⦄, expr.needsParens outer isRight = false → level ≤ expr.level.follow

theorem place_of_lt (named : .named ≤ level)
    (tighter : ∀ ⦃expr : Expr⦄, expr.needsParens outer isRight = false → level < expr.level) :
    Place outer isRight level where
  fits expr bare := by
    refine ⟨fun _ => tighter bare, fun same => ?_⟩
    have above := tighter bare
    rw [same] at above
    exact absurd named (Nat.not_le.mpr above)
  follows _ bare := Level.le_follow_of_lt (tighter bare)

theorem place_below (named : .named ≤ level) (below : level < outer) :
    Place outer isRight level :=
  place_of_lt named fun _ bare => Nat.lt_of_lt_of_le below (level_ge_of_needsParens bare)

theorem place_right (named : .named ≤ level) (notPower : level ≠ .power)
    (notAtom : level ≠ .atom) : Place level true level := by
  refine place_of_lt named fun expr bare => ?_
  refine Nat.lt_of_le_of_ne (level_ge_of_needsParens bare) fun same => ?_
  rw [needsParens_same same.symm notAtom notPower] at bare
  cases bare

theorem place_binary (op : BinaryOp) : Place op.level true (if op == .pow then .unary else op.level) := by
  cases op with
  | pow => exact place_below (by decide) (by decide)
  | _ => exact place_right (by decide) (by decide) (by decide)

theorem place_boolean (op : BoolOp) : Place op.level true op.level := by
  cases op <;> exact place_right (by decide) (by decide) (by decide)

theorem place_same (listed : level ∈ [.named, .test, .not, .unary, .await]) :
    Place level false level := by
  have each : ∀ level ∈ [Level.named, Level.test, Level.not, Level.unary, Level.await],
      Level.named ≤ level ∧ level.follow = level := by decide
  obtain ⟨named, itself⟩ := each level listed
  refine ⟨fun expr bare => ⟨fun extended => ?_, fun same => ?_⟩, fun expr bare => ?_⟩
  · refine Nat.lt_of_le_of_ne (level_ge_of_needsParens bare) fun same => ?_
    exact level_of_isExtended extended (same ▸ listed)
  · exact Nat.le_antisymm (same ▸ level_ge_of_needsParens bare) named
  · rcases Nat.eq_or_lt_of_le (level_ge_of_needsParens bare) with same | tighter
    · exact Nat.le_of_eq (same ▸ itself.symm)
    · exact Level.le_follow_of_lt tighter

theorem named_le_level (expr : Expr) : .named ≤ expr.level := by
  cases expr with
  | tuple =>
    rw [Expr.level]
    split <;> decide
  | binary mark op left right | unary mark op operand | boolean mark op values =>
    rw [Expr.level]
    cases op <;> decide
  | _ =>
    simp only [Expr.level]
    decide

theorem needsParens_named (expr : Expr) : expr.needsParens .named false = false := by
  rcases Nat.eq_or_lt_of_le expr.named_le_level with same | tighter
  · exact needsParens_same same.symm (by decide) (by decide)
  · exact needsParens_of_lt tighter

theorem tokensAt_named (expr : Expr) : expr.tokensAt .named false = expr.tokens := by
  rw [tokensAt, encloseTokens, expr.needsParens_named]
  rfl

theorem eq_power_of_level (same : expr.level = .power) :
    ∃ mark left right, expr = .binary mark .pow left right := by
  cases expr with
  | binary mark op left right =>
    cases op with
    | pow => exact ⟨mark, left, right, rfl⟩
    | _ => cases same
  | tuple =>
    rw [Expr.level] at same
    split at same <;> exact absurd same (by decide)
  | unary mark op operand | boolean mark op values =>
    cases op <;> cases same
  | _ => cases same

theorem eq_boolean_of_level {op : BoolOp} (same : expr.level = op.level) :
    ∃ mark values, expr = .boolean mark op values := by
  cases expr with
  | boolean mark inner values =>
    cases inner <;> cases op <;> first
      | exact ⟨mark, values, rfl⟩
      | cases same
  | tuple =>
    rw [Expr.level] at same
    split at same <;> cases op <;> exact absurd same (by decide)
  | binary mark inner left right | unary mark inner operand =>
    cases inner <;> cases op <;> cases same
  | _ => cases op <;> cases same

theorem binary_left {op : BinaryOp} (bare : expr.needsParens op.level false = false) :
    op.level ≤ expr.level.follow := by
  rcases Nat.eq_or_lt_of_le (level_ge_of_needsParens bare) with same | tighter
  · rw [← same]
    cases op with
    | pow =>
      obtain ⟨mark, left, right, rfl⟩ := eq_power_of_level same.symm
      cases bare
    | _ => decide
  · exact Level.le_follow_of_lt tighter

theorem boolean_left {op : BoolOp} (bare : expr.needsParens op.level false = false)
    (apart : ∀ mark values, expr ≠ .boolean mark op values) : op.level ≤ expr.level.follow := by
  refine Level.le_follow_of_lt (Nat.lt_of_le_of_ne (level_ge_of_needsParens bare) fun same => ?_)
  obtain ⟨mark, values, equal⟩ := eq_boolean_of_level same.symm
  exact apart mark values equal

theorem atom_left (bare : expr.needsParens Level.atom false = false) : .atom ≤ expr.level.follow := by
  rw [Nat.le_antisymm expr.level_le_atom (level_ge_of_needsParens bare)]
  decide

end Expr

namespace Parser

variable {level lower : Level} {token : Token} {tokens more : List Token}

theorem Starts.mono (starts : Starts level tokens) (le : lower ≤ level) : Starts lower tokens := by
  obtain ⟨first, others, shape, opening⟩ := starts
  exact ⟨first, others, shape, opening.plain,
    fun negated => Nat.le_trans le (opening.negation negated), opening.word⟩

theorem Starts.append (starts : Starts level tokens)
    (other : ∀ second ∈ more.head?, second.kind ≠ .symbol .assign) :
    Starts level (tokens ++ more) := by
  obtain ⟨first, others, rfl, opening⟩ := starts
  refine ⟨first, others ++ more, rfl, opening.plain, opening.negation, fun word => ?_⟩
  cases others with
  | nil => exact other
  | cons => exact opening.word word

theorem starts_token (kind : TokenKind) (same : token.kind = kind)
    (ordinary : kind ∉ neverFirst ++ [.keyword .not_, .ident]) : Starts level (token :: tokens) := by
  subst same
  simp only [mem_append, mem_cons, not_or] at ordinary
  refine ⟨token, tokens, rfl, ordinary.1, ?_, ?_⟩
  · exact fun negated => absurd negated ordinary.2.1
  · exact fun word => absurd word ordinary.2.2.1

theorem starts_between (symbol closing : Symbol) (listed : symbol ∈ [.openParen, .openBracket, .openBrace]) :
    Starts level (between symbol tokens closing) := by
  refine starts_token (.symbol symbol) rfl ?_
  revert symbol
  decide

theorem starts_word {id : String} (word : isName id)
    (other : ∀ second ∈ tokens.head?, second.kind ≠ .symbol .assign) :
    Starts level (.word id :: tokens) := by
  refine ⟨.word id, tokens, rfl, ?_, ?_, fun _ => other⟩ <;> rw [word_kind word]
  · decide
  · intro negated
    cases negated

theorem Starts.enclose {expr : Expr} (starts : Starts expr.level expr.tokens) (outer : Level)
    (isRight : Bool) : Starts outer (expr.tokensAt outer isRight) := by
  rw [Expr.tokensAt, Expr.encloseTokens]
  split
  · exact starts_between .openParen .closeParen (by decide)
  · rename_i bare
    exact starts.mono (Expr.level_ge_of_needsParens (Bool.eq_false_iff.mpr bare))

theorem starts_constant {kind : ConstantKind} {value : String} (written : kind.writes value) :
    Starts level [constantToken kind value] := by
  cases kind with
  | str => exact starts_token .string rfl (by decide)
  | int => exact starts_token .int rfl (by decide)
  | bool =>
    rcases bool_writes written with rfl | rfl
    · exact starts_token _ (Keyword.token_kind .true_) (by decide)
    · exact starts_token _ (Keyword.token_kind .false_) (by decide)
  | none =>
    obtain rfl := eq_of_beq written
    exact starts_token _ (Keyword.token_kind .none_) (by decide)
  | ellipsis => exact starts_token (.symbol .ellipsis) rfl (by decide)
  | float | complex | bytes => cases written

theorem starts_unary (op : UnaryOp) : Starts op.level (op.token :: tokens) := by
  cases op with
  | minus => exact starts_token (.symbol .minus) rfl (by decide)
  | plus => exact starts_token (.symbol .plus) rfl (by decide)
  | invert => exact starts_token (.symbol .tilde) rfl (by decide)
  | not =>
    refine ⟨Keyword.not_.token, tokens, rfl, ?_, fun _ => Nat.le_refl Level.not, ?_⟩
    · rw [Keyword.token_kind]
      decide
    · rw [Keyword.token_kind]
      nofun

/-- The tokens of a plain expression open one of its level. -/
theorem starts_plain {height : Nat} {expr : Expr} (plain : expr.Plain height) :
    Starts expr.level expr.tokens := by
  induction plain with
  | name word =>
    refine starts_word word fun second member => ?_
    cases member
  | constant written => exact starts_constant written
  | list => exact starts_between .openBracket .closeBracket (by decide)
  | set | dict => exact starts_between .openBrace .closeBrace (by decide)
  | @tuple height mark elements parenthesized each ih =>
    cases elements with
    | nil => exact starts_between .openParen .closeParen (by decide)
    | cons _ others =>
      cases others <;> exact starts_between .openParen .closeParen (by decide)
  | named word => exact starts_word word (by rintro second ⟨⟩; decide)
  | unary => exact starts_unary _
  | lambda => exact starts_token _ (Keyword.token_kind .lambda_) (by decide)
  | await => exact starts_token _ (Keyword.token_kind .await_) (by decide)
  | @binary height mark op left right first second ihFirst ihSecond =>
    refine (ihFirst.enclose op.level false).append ?_
    rintro second ⟨⟩
    cases op <;> decide
  | @boolean height mark op first second others each apart ih =>
    refine ((ih first mem_cons_self).enclose op.level false).append ?_
    rintro second ⟨⟩
    rw [Keyword.token_kind]
    intro same
    cases same
  | @compare height mark left comparisons first some each ihFirst ihEach =>
    refine ((ihFirst.enclose Level.bitOr false).append ?_).mono (Nat.le_succ Level.compare)
    obtain ⟨⟨op, operand⟩, others, rfl⟩ := exists_cons_of_ne_nil some
    cases op with
    | less | greater | lessEqual | greaterEqual | equal | notEqual =>
      rintro second ⟨⟩
      decide
    | isIn | notIn | same | notSame =>
      rintro second ⟨⟩
      intro same
      cases same
  | conditional _ _ second _ ih =>
    rw [Expr.tokens, append_assoc]
    refine ((ih.enclose Level.or false).append ?_).mono (Nat.le_succ Level.conditional)
    rintro second ⟨⟩
    intro same
    cases same
  | call function each words values ih | access plain word apart ih | subscript plain inner apart ih =>
    refine (ih.enclose .atom false).append ?_
    rintro second ⟨⟩
    decide

end Parser

end Stubwise
