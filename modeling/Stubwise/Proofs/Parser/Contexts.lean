import Stubwise.Proofs.Orderly.Parse
import Stubwise.Tree.Walk

namespace Stubwise

open List

variable {use inner : Context} {expr part : Expr} {body : List Stmt}

namespace Expr

/-- The context that a node carries, if its form has one. -/
def context? : Expr → Option Context
  | name _ _ own | list _ _ own | tuple _ _ own | starred _ _ own | access _ _ _ own
  | subscript _ _ _ own => some own
  | _ => none

/-- The expressions directly below one, each with what it is used for. The elements of a tuple, a list
or a starred expression are used as the whole is; below any other target all is read. -/
def uses (use : Context) : Expr → List (Context × Expr)
  | list _ elements _ | tuple _ elements _ => elements.map (use, ·)
  | starred _ value _ => [(use, value)]
  | named _ target id value => [(.store, .name target id .store), (.load, value)]
  | expr => expr.places

theorem uses_children (use : Context) (expr : Expr) : (expr.uses use).map (·.2) = expr.children := by
  cases expr <;> simp [uses, Comprehension.expressions, map_flatMap, Function.comp_def]

theorem Stands.of_use (stands : expr.Stands use) (member : (inner, part) ∈ expr.uses use) :
    part.Stands inner := by
  have own := stands.own
  unfold uses at member
  split at member
  · rw [← eq_of_beq own] at member
    exact stands.part member
  · rw [← eq_of_beq own] at member
    exact stands.part member
  · rw [← eq_of_beq (Bool.and_eq_true_iff.mp own).1] at member
    exact stands.part member
  · rcases mem_cons.mp member with same | later
    · cases same
      exact .intro rfl (by simp)
    · exact stands.part later
  · exact stands.part member

theorem Stands.context (stands : expr.Stands use) : ∀ own ∈ expr.context?, own = use := by
  have own := stands.own
  cases expr <;> simp_all [context?, Expr.fits]

end Expr

/-- An expression stands somewhere in a list of statements, for a use. -/
inductive UsedIn : List Stmt → Context → Expr → Prop where
  | own {body : List Stmt} {stmt : Stmt} {use : Context} {expr : Expr} (listed : stmt ∈ body)
      (place : (use, expr) ∈ stmt.places) : UsedIn body use expr
  | inner {body : List Stmt} {stmt : Stmt} {use : Context} {expr : Expr} (listed : stmt ∈ body)
      (used : UsedIn stmt.inner use expr) : UsedIn body use expr
  | part {body : List Stmt} {use asked : Context} {expr part : Expr} (used : UsedIn body use expr)
      (member : (asked, part) ∈ expr.uses use) : UsedIn body asked part

namespace UsedIn

theorem stands (used : UsedIn body use expr) (all : ∀ stmt ∈ body, stmt.Stands) :
    expr.Stands use := by
  induction used with
  | own listed place => exact (all _ listed).part place
  | inner listed _ ih => exact ih fun _ member => (all _ listed).within member
  | part _ member ih => exact (ih all).of_use member

theorem of_walk {root : Expr} (used : UsedIn body use root) (member : expr ∈ root.walk) :
    ∃ use, UsedIn body use expr := by
  induction root using Expr.walk.induct generalizing use with
  | _ root ih =>
    rw [Expr.walk] at member
    rcases mem_cons.mp member with rfl | later
    · exact ⟨use, used⟩
    · obtain ⟨⟨child, listed⟩, -, inside⟩ := mem_flatMap.mp later
      have place := listed
      rw [← root.uses_children use] at place
      obtain ⟨⟨asked, part⟩, found, rfl⟩ := mem_map.mp place
      exact ih _ listed (.part used found) inside

end UsedIn

namespace Stmt

theorem mem_walkAll {node : Node} : node ∈ walkAll body ↔ ∃ stmt ∈ body, node ∈ stmt.walk := by
  induction body with
  | nil => simp [walkAll]
  | cons _ _ ih => simp [walkAll, ih]

theorem mem_walkHandlers {node : Node} {handlers : List Handler} : node ∈ walkHandlers handlers ↔
    node ∈ Expr.walkNodes (handlers.flatMap (·.type.toList)) ∨
      ∃ stmt ∈ handlers.flatMap (·.body), node ∈ stmt.walk := by
  induction handlers with
  | nil => simp [walkHandlers, Expr.walkNodes]
  | cons handler _ ih =>
    obtain ⟨mark, type, name, body⟩ := handler
    simp only [walkHandlers, mem_append, ih, mem_walkAll, Expr.walkNodes, flatMap_cons, flatMap_append,
      or_and_right, exists_or]
    exact or_or_or_comm ..

/-- What a walk meets in a statement, it meets at a place of it or in a statement inside. -/
theorem mem_walk {stmt : Stmt} (member : .expr expr ∈ stmt.walk) :
    .expr expr ∈ Expr.walkNodes (stmt.places.map (·.2)) ∨ ∃ part ∈ stmt.inner, .expr expr ∈ part.walk := by
  cases stmt with
  | function definition | class_ definition =>
    cases definition
    simpa [walk, mem_walkAll, Function.comp_def] using member
  | branch | loop | each =>
    simpa [walk, mem_walkAll, or_and_right, exists_or] using member
  | guarded =>
    simp only [walk, mem_walkAll, mem_walkHandlers, cons_append, mem_cons, mem_append, reduceCtorEq,
      false_or] at member
    simp only [mem_append, or_and_right, exists_or, map_map, Function.comp_def, map_id']
    grind
  | _ => simpa [walk, mem_walkAll, map_flatMap, Function.comp_def] using member

theorem Stands.used_of_walk {stmt : Stmt} (stands : stmt.Stands) (listed : stmt ∈ body)
    (member : .expr expr ∈ stmt.walk) : ∃ use, UsedIn body use expr := by
  induction stands generalizing body with
  | intro _ _ _ ih =>
    rcases mem_walk member with own | ⟨part, inside, later⟩
    · simp only [Expr.walkNodes, mem_flatMap, mem_map, Prod.exists, exists_eq_right, Node.expr.injEq] at own
      obtain ⟨root, ⟨use, place⟩, below⟩ := own
      exact (UsedIn.own listed place).of_walk below
    · obtain ⟨use, used⟩ := ih part inside inside later
      exact ⟨use, .inner listed used⟩

end Stmt

/-- The contexts of a parsed module say what its expressions are used for, and each expression that a
walk meets has a use. -/
theorem contexts_tell_uses (file source : String) (firstNode : Nat) :
    let module := (parseModule file source firstNode).tree
    (∀ use expr, UsedIn module.body use expr → ∀ context ∈ expr.context?, context = use) ∧
      ∀ expr, .expr expr ∈ module.walk → ∃ use, UsedIn module.body use expr := by
  have stand := (parseModule_proper file source firstNode).holds.1
  refine ⟨fun use expr used => (used.stands stand).context, fun expr member => ?_⟩
  obtain ⟨stmt, listed, inside⟩ := Stmt.mem_walkAll.mp member
  exact (stand stmt listed).used_of_walk listed inside

end Stubwise
