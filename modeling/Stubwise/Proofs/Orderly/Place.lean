import Stubwise.Parser.Target
import Stubwise.Proofs.Run
import Stubwise.Tree.Stmt

namespace Stubwise

open List

variable {asked context : Context} {expr value : Expr} {mark : Mark}

/-- The parts of a clause, each with the context that its place asks for. -/
abbrev Comprehension.places (clause : Comprehension) : List (Context × Expr) :=
  (.store, clause.target) :: (.load, clause.iter) :: clause.conditions.map (.load, ·)

namespace Expr

/-- Whether a node can stand in a context. Only some forms can be targets, and what is starred is
never deleted. -/
abbrev fits (context : Context) : Expr → Bool
  | name _ _ own | list _ _ own | tuple _ _ own | access _ _ _ own | subscript _ _ _ own =>
    own == context
  | starred _ _ own => own == context && context != .del
  | _ => context == .load

/-- The expressions directly below an expression, each with the context that its place asks for. -/
abbrev places : Expr → List (Context × Expr)
  | list _ elements context | tuple _ elements context => elements.map (context, ·)
  | starred _ value context => [(context, value)]
  | listComp _ element clauses | setComp _ element clauses | generator _ element clauses =>
    (.load, element) :: clauses.flatMap (·.places)
  | dictComp _ key value clauses =>
    (.load, key) :: (.load, value) :: clauses.flatMap (·.places)
  | named _ _ _ value => [(.load, value)]
  | expr => expr.children.map (.load, ·)

/-- The expression and all below it stand in the contexts that their places ask for. -/
inductive Stands : Context → Expr → Prop where
  | intro {context : Context} {expr : Expr} (fits : expr.fits context)
      (below : ∀ place ∈ expr.places, Stands place.1 place.2) : Stands context expr

namespace Stands

variable {context : Context} {expr : Expr}

theorem own (stands : expr.Stands context) : expr.fits context := by
  cases stands
  assumption

theorem part (stands : expr.Stands context) {inner : Expr}
    (member : (asked, inner) ∈ expr.places) : inner.Stands asked := by
  cases stands with
  | intro _ below => exact below _ member

theorem elements {elements : List Expr} {own : Context} (stands : expr.Stands context)
    (fits : expr.fits context = (own == context)) (places : expr.places = elements.map (own, ·)) :
    ∀ element ∈ elements, element.Stands context := by
  have same : own = context := by simpa [fits] using stands.own
  subst same
  intro element member
  exact stands.part (places ▸ mem_map_of_mem member)

theorem of_elements {elements : List Expr} (fits : expr.fits context)
    (places : expr.places = elements.map (context, ·))
    (all : ∀ element ∈ elements, element.Stands context) : expr.Stands context := by
  refine .intro fits ?_
  rw [places]
  exact forall_mem_map.mpr all

theorem value_of_starred {own : Context} (stands : (starred mark value own).Stands context) :
    context ≠ .del ∧ value.Stands context := by
  obtain ⟨same, kept⟩ : own = context ∧ context ≠ .del := by simpa [Expr.fits] using stands.own
  subst same
  exact ⟨kept, stands.part mem_cons_self⟩

theorem starred (kept : context ≠ .del)
    (stands : value.Stands context) : (Expr.starred mark value context).Stands context := by
  exact .intro (by simpa [Expr.fits] using kept) (forall_mem_singleton.mpr stands)

end Stands

/-- The expression and all below it were read at places that are near. -/
inductive Near (near : Position → Prop) : Expr → Prop where
  | intro {expr : Expr} (here : near expr.position)
      (below : ∀ place ∈ expr.places, Near near place.2) : Near near expr

namespace Near

variable {near : Position → Prop} {context : Context} {expr : Expr}

theorem here (known : expr.Near near) : near expr.position := by
  cases known
  assumption

theorem part (known : expr.Near near) {inner : Expr}
    (member : (asked, inner) ∈ expr.places) : inner.Near near := by
  cases known with
  | intro _ below => exact below _ member

theorem of_stands (every : ∀ position, near position) (stands : expr.Stands context) :
    expr.Near near := by
  induction stands with
  | intro _ _ ih => exact .intro (every _) ih

end Near

mutual

theorem asTarget_stands : ∀ {expr target : Expr},
    expr.Stands .load → expr.asTarget context = .ok target → target.Stands context
  | .name .., _, _, made => by
    simp only [asTarget, Except.ok.injEq] at made
    subst made
    exact .intro (by simp [Expr.fits]) (by simp [places, children])
  | .access .., _, stands, made | .subscript .., _, stands, made => by
    simp only [asTarget, Except.ok.injEq] at made
    subst made
    exact .intro (by simp [Expr.fits]) fun place member => stands.part member
  | .tuple _ elements _, _, stands, made | .list _ elements _, _, stands, made => by
    obtain ⟨_, parts, ⟨⟩⟩ := Run.exists_of_bind made
    refine .of_elements (by simp [Expr.fits]) rfl ?_
    exact asTargets_stand (stands.elements rfl rfl) parts
  | .starred _ value _, _, stands, made => by
    simp only [asTarget] at made
    split at made
    · cases made
    · rename_i kept
      obtain ⟨_, part, ⟨⟩⟩ := Run.exists_of_bind made
      exact .starred (by simpa using kept) (asTarget_stands stands.value_of_starred.2 part)
  | .constant .., _, _, made | .formatted .., _, _, made | .set .., _, _, made
  | .dict .., _, _, made | .listComp .., _, _, made | .setComp .., _, _, made
  | .generator .., _, _, made | .dictComp .., _, _, made | .named .., _, _, made
  | .binary .., _, _, made | .unary .., _, _, made | .boolean .., _, _, made
  | .compare .., _, _, made | .conditional .., _, _, made | .call .., _, _, made
  | .slice .., _, _, made | .lambda .., _, _, made | .yield .., _, _, made
  | .await .., _, _, made => by
    simp only [asTarget] at made
    cases made

theorem asTargets_stand : ∀ {exprs targets : List Expr},
    (∀ expr ∈ exprs, expr.Stands .load) → asTargets context exprs = .ok targets →
      ∀ target ∈ targets, target.Stands context
  | [], _, _, made => by
    simp only [asTargets, Except.ok.injEq] at made
    subst made
    exact forall_mem_nil _
  | expr :: rest, _, stand, made => by
    obtain ⟨self, later⟩ := forall_mem_cons.mp stand
    obtain ⟨_, first, made⟩ := Run.exists_of_bind made
    obtain ⟨_, others, ⟨⟩⟩ := Run.exists_of_bind made
    exact forall_mem_cons.mpr ⟨asTarget_stands self first, asTargets_stand later others⟩

end

end Expr

abbrev WithItem.places (item : WithItem) : List (Context × Expr) :=
  (.load, item.context) :: item.target.toList.map (.store, ·)

namespace Stmt

abbrev fits : Stmt → Bool
  | augAssign _ target _ _ | annAssign _ target _ _ => target.isSingleTarget
  | _ => true

/-- The expressions directly below a statement, each with the context that its place asks for. -/
abbrev places : Stmt → List (Context × Expr)
  | assign _ targets value => targets.map (.store, ·) ++ [(.load, value)]
  | augAssign _ target _ value => [(.store, target), (.load, value)]
  | annAssign _ target hint value =>
    (.store, target) :: (.load, hint) :: value.toList.map (.load, ·)
  | delete _ targets => targets.map (.del, ·)
  | branch _ test _ _ | loop _ test _ _ => [(.load, test)]
  | each _ target iter _ _ _ => [(.store, target), (.load, iter)]
  | manage _ items _ _ => items.flatMap (·.places)
  | guarded _ _ handlers _ _ => (handlers.flatMap (·.type.toList)).map (.load, ·)
  | function definition =>
    (definition.decorators ++ definition.params.expressions ++ definition.returns.toList).map (.load, ·)
  | class_ definition =>
    (definition.decorators ++ definition.bases ++ definition.keywords.map (·.value)).map (.load, ·)
  | stmt => stmt.ownExprs.map (.load, ·)

abbrev inner : Stmt → List Stmt
  | branch _ _ body orElse | loop _ _ body orElse | each _ _ _ body orElse _ => body ++ orElse
  | manage _ _ body _ => body
  | guarded _ body handlers orElse finish =>
    body ++ handlers.flatMap (·.body) ++ orElse ++ finish
  | function definition => definition.body
  | class_ definition => definition.body
  | _ => []

/-- All expressions of the statement and of those below it stand in the contexts that their places
ask for. -/
inductive Stands : Stmt → Prop where
  | intro {stmt : Stmt} (fits : stmt.fits)
      (exprs : ∀ place ∈ stmt.places, place.2.Stands place.1)
      (stmts : ∀ inner ∈ stmt.inner, Stands inner) : Stands stmt

namespace Stands

variable {stmt : Stmt}

theorem own (stands : stmt.Stands) : stmt.fits := by
  cases stands
  assumption

theorem part (stands : stmt.Stands) (member : (context, expr) ∈ stmt.places) : expr.Stands context := by
  cases stands with
  | intro _ exprs _ => exact exprs _ member

theorem within (stands : stmt.Stands) {inner : Stmt} (member : inner ∈ stmt.inner) :
    inner.Stands := by
  cases stands with
  | intro _ _ stmts => exact stmts inner member

end Stands

/-- The marks of a statement that are not those of an expression or a statement below it. -/
def ownMarks : Stmt → List Mark
  | guarded mark _ handlers _ _ => mark :: handlers.map (·.mark)
  | import_ mark names | importFrom mark _ names _ => mark :: names.map (·.mark)
  | stmt => [stmt.mark]

/-- The places that running a statement may speak of, except for those inside its parts. -/
def positions (stmt : Stmt) : List Position :=
  stmt.ownMarks.map (·.position) ++ stmt.places.map (·.2.position) ++ stmt.inner.map (·.position)

theorem mark_mem_ownMarks (stmt : Stmt) : stmt.mark ∈ stmt.ownMarks := by
  cases stmt <;> exact mem_cons_self

/-- The statement and all below it were read at places that are near. -/
inductive Near (near : Position → Prop) : Stmt → Prop where
  | intro {stmt : Stmt} (marks : ∀ mark ∈ stmt.ownMarks, near mark.position)
      (exprs : ∀ place ∈ stmt.places, place.2.Near near)
      (stmts : ∀ inner ∈ stmt.inner, Near near inner) : Near near stmt

namespace Near

variable {near : Position → Prop} {stmt : Stmt}

theorem part (known : stmt.Near near) (member : (context, expr) ∈ stmt.places) : expr.Near near := by
  cases known with
  | intro _ exprs _ => exact exprs _ member

theorem within (known : stmt.Near near) {inner : Stmt} (member : inner ∈ stmt.inner) :
    inner.Near near := by
  cases known with
  | intro _ _ stmts => exact stmts inner member

theorem here (known : stmt.Near near) : near stmt.position := by
  cases known with
  | intro marks _ _ => exact marks _ stmt.mark_mem_ownMarks

theorem positions (known : stmt.Near near) : ∀ position ∈ stmt.positions, near position := by
  cases known with
  | intro marks exprs stmts =>
    simp only [Stmt.positions, forall_mem_append, forall_mem_map]
    exact ⟨⟨marks, fun place member => (exprs place member).here⟩,
      fun inner member => (stmts inner member).here⟩

theorem of_stands (every : ∀ position, near position) (stands : stmt.Stands) : stmt.Near near := by
  induction stands with
  | intro _ exprs _ ih =>
    exact .intro (fun _ _ => every _) (fun place member => .of_stands every (exprs place member)) ih

end Near

end Stmt

end Stubwise
