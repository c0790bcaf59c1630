import Stubwise.Proofs.RoundTrip.Steps

namespace Stubwise

open List

/-- How tightly a token may bind behind an expression of this level without becoming part of it. -/
def Level.follow (level : Level) : Level :=
  if level ∈ [conditional, or, and, compare, power] then level - 1 else level

namespace Expr

/-- Whether an expression is an operand with an operator behind it. -/
def isExtended : Expr → Bool
  | binary .. | boolean .. | compare .. | conditional .. | call .. | access .. | subscript .. => true
  | _ => false

structure Fits (expr : Expr) (level : Level) : Prop where
  tighter : expr.isExtended = true → level < expr.level
  bound : expr.level = .named → level = .named

end Expr

namespace Parser

variable {read : ReadExpr} {depth : Nat} {level : Level} {tokens more rest final : List Token}
  {expr left : Expr}

/-- The tokens leave an expression at a place of the given level as it is. -/
structure Behind (level : Level) (rest : List Token) : Prop where
  two : ∃ first second others, rest = first :: second :: others
  loose : binding rest ≤ level
  plain : ∀ token ∈ rest.head?, token.kind ∉
    [.string, .fstring, .keyword .for_, .keyword .async_, .symbol .walrus, .symbol .assign]

theorem Behind.mono {higher : Level} (behind : Behind level rest) (le : level ≤ higher) :
    Behind higher rest :=
  ⟨behind.two, Nat.le_trans behind.loose le, behind.plain⟩

theorem Behind.ne_nil (behind : Behind level rest) : rest ≠ [] := by
  obtain ⟨first, second, others, rfl⟩ := behind.two
  exact cons_ne_nil first (second :: others)

structure Operates (level : Level) (tokens : List Token) : Prop extends Behind level tokens where
  binds : binding tokens = level

theorem operates_token {token : Token} (binds : bindingLevel token.kind = level)
    (other : token.kind ∉ [.string, .fstring, .keyword .for_, .keyword .async_, .symbol .walrus,
      .symbol .assign, .keyword .not_]) (some : rest ≠ []) : Operates level (token :: rest) := by
  obtain ⟨second, others, rfl⟩ := exists_cons_of_ne_nil some
  simp only [mem_cons, not_or] at other
  rw [← binding_cons other.2.2.2.2.2.2.1] at binds
  refine ⟨⟨⟨_, _, _, rfl⟩, Nat.le_of_eq binds, ?_⟩, binds⟩
  simp [other]

def ReadsAs (read : ReadExpr) (depth : Nat) (level : Level) (tokens rest : List Token)
    (expr : Expr) : Prop :=
  Accepts (read level) depth (tokens ++ rest) rest fun found => found.unmarked = expr.unmarked

/-- The tokens are taken for the expression, and reading goes on with what extends it. -/
def Grows (read : ReadExpr) (depth : Nat) (level : Level) (tokens rest : List Token)
    (expr : Expr) : Prop :=
  ∀ ⦃final : List Token⦄ ⦃good : Expr → Prop⦄,
    (∀ ⦃found : Expr⦄ ⦃last : Token⦄ ⦃turns : Nat⦄, found.unmarked = expr.unmarked → rest.length ≤ turns →
      Accepts (extendAll read level turns found) depth (last :: rest) final good) →
    Accepts (extendedOperand read level) depth (tokens ++ rest) final good

theorem extendAll_stops {found : Expr} {last : Token} {turns : Nat} {good : Expr → Prop}
    (behind : Behind level rest) (enough : rest.length ≤ turns) (holds : good found) :
    Accepts (extendAll read level turns found) depth (last :: rest) rest good := by
  obtain ⟨first, second, others, rfl⟩ := behind.two
  have other : (first.kind == .symbol .walrus) = false := by
    have plain := behind.plain first rfl
    simp only [mem_cons, not_or] at plain
    exact beq_eq_false_iff_ne.mpr plain.2.2.2.2.1
  cases turns with
  | zero => simp at enough
  | succ =>
    refine accepts_tells tells_levelAhead ?_
    rw [if_neg (Nat.not_lt.mpr behind.loose)]
    refine accepts_tells (tells_aheadIs other) ?_
    rw [Bool.and_false]
    exact accepts_pure holds

theorem Grows.reads {fuel : Nat} (grows : Grows (expressionWithin fuel) (depth + 1) level tokens rest expr)
    (behind : Behind level rest) (low : depth < maxDepth) :
    ReadsAs (expressionWithin (fuel + 1)) depth level tokens rest expr :=
  expressionWith_accepts low (grows fun _ _ _ same enough => extendAll_stops behind enough same)

theorem grows_operand (accepts : Accepts (operand read) depth (tokens ++ rest) rest
      fun found => found.unmarked = expr.unmarked) :
    Grows read depth level tokens rest expr := by
  intro final good goesOn
  refine accepts.bind fun found last same => accepts_turns fun count room => ?_
  exact goesOn same (Nat.le_of_succ_le room)

/-- An operator behind an expression that binds tighter than the place extends it. -/
theorem Grows.extend {bound : Level} (grows : Grows read depth level tokens (more ++ rest) left)
    (nonempty : more ≠ []) (operates : Operates bound (more ++ rest)) (tighter : level < bound)
    (extension : ∀ found, found.unmarked = left.unmarked →
      Accepts (extend read found) depth (more ++ rest) rest fun found => found.unmarked = expr.unmarked) :
    Grows read depth level (tokens ++ more) rest expr := by
  intro final good goesOn
  rw [append_assoc]
  refine grows fun found last turns same room => ?_
  obtain ⟨first, second, others, shape⟩ := operates.two
  rw [← operates.binds] at tighter
  cases turns with
  | zero => simp [shape] at room
  | succ =>
    have positive : 0 < more.length := length_pos_iff.mpr nonempty
    rw [length_append] at room
    have extended := extension found same
    rw [shape] at extended tighter ⊢
    refine accepts_tells tells_levelAhead ?_
    rw [if_pos tighter]
    refine accepts_advance (extended.bind fun found last same => goesOn same ?_)
    omega

end Parser

end Stubwise
