import Stubwise.Proofs.Orderly.Stmt

/-!
Names that hoisting misses. Hoisting finds the names of targets and those that `:=` binds in the
values of statements.
-/

namespace Stubwise

open List

namespace Expr

variable {expr part target : Expr} {name : String}

theorem mem_children_of_operand (member : part ∈ expr.operands) : part ∈ expr.children := by
  cases expr with
  | named => exact mem_cons_of_mem _ member
  | lambda | yield | await => cases member
  | _ => exact member

mutual

def singles : Expr → List Expr
  | tuple _ elements _ => singlesAll elements
  | list _ elements _ => singlesAll elements
  | starred _ value _ => value.singles
  | target => [target]

def singlesAll : List Expr → List Expr
  | [] => []
  | target :: rest => target.singles ++ singlesAll rest

end

theorem singlesAll_eq (targets : List Expr) : singlesAll targets = targets.flatMap singles := by
  induction targets with
  | nil => rfl
  | cons _ _ ih => rw [singlesAll, ih, flatMap_cons]

theorem mem_flatMap_singlesAll {α : Type} {f : Expr → List α} {a : α} {elements : List Expr}
    (member : target ∈ elements) (found : a ∈ target.singles.flatMap f) :
    a ∈ (singlesAll elements).flatMap f := by
  obtain ⟨single, listed, within⟩ := mem_flatMap.mp found
  rw [singlesAll_eq]
  exact mem_flatMap.mpr ⟨single, mem_flatMap.mpr ⟨target, member, listed⟩, within⟩

def targetReads (target : Expr) : List Expr :=
  target.singles.flatMap fun
    | access _ value _ _ => [value]
    | subscript _ value index _ => [value, index]
    | _ => []

/-- The names of which an assignment to a target sets an attribute. -/
def ownerNames (target : Expr) : List String :=
  target.singles.flatMap fun
    | access _ (.name _ id _) _ _ => [id]
    | _ => []

def clauses : Expr → List Comprehension
  | listComp _ _ clauses | setComp _ _ clauses | generator _ _ clauses | dictComp _ _ _ clauses =>
    clauses
  | _ => []

/-- The names of which comprehensions in an expression set attributes, and that are not local to
them. -/
def clauseOwners (expr : Expr) : List String :=
  let targets := expr.clauses.map (·.target)
  (targets.flatMap ownerNames).filter (!(targets.flatMap targetNames).contains ·) ++
    expr.operands.attach.flatMap fun ⟨part, _⟩ => part.clauseOwners
termination_by sizeOf expr
decreasing_by exact sizeOf_lt_of_mem_children (mem_children_of_operand (by assumption))

/-- The names that inferring an expression stores in the code around it. -/
def sideNames (expr : Expr) : List String :=
  expr.walrusNames ++ expr.clauseOwners

theorem walrusNames_of_operand (member : part ∈ expr.operands) (bound : name ∈ part.walrusNames) :
    name ∈ expr.walrusNames := by
  have below := mem_children_of_operand member
  unfold walrusNames
  cases expr with
  | lambda => cases member
  | _ =>
    exact mem_append_right _ (mem_flatMap.mpr ⟨⟨part, below⟩, mem_attach _ _, bound⟩)

theorem clauseOwners_of_operand (member : part ∈ expr.operands)
    (owner : name ∈ part.clauseOwners) : name ∈ expr.clauseOwners := by
  unfold clauseOwners
  exact mem_append_right _ (mem_flatMap.mpr ⟨⟨part, member⟩, mem_attach _ _, owner⟩)

theorem clauseOwners_of_clause {clause : Comprehension} (member : clause ∈ expr.clauses)
    (owner : name ∈ clause.target.ownerNames)
    (escapes : name ∉ expr.clauses.flatMap fun clause => clause.target.targetNames) :
    name ∈ expr.clauseOwners := by
  unfold clauseOwners
  refine mem_append_left _ (mem_filter.mpr ⟨?_, ?_⟩)
  · exact mem_flatMap.mpr ⟨clause.target, mem_map_of_mem member, owner⟩
  · simpa [flatMap_map] using escapes

theorem sideNames_of_operand (member : part ∈ expr.operands) (stored : name ∈ part.sideNames) :
    name ∈ expr.sideNames := by
  rcases mem_append.mp stored with bound | owner
  · exact mem_append_left _ (walrusNames_of_operand member bound)
  · exact mem_append_right _ (clauseOwners_of_operand member owner)

theorem single_of_targetRead {read : Expr} (member : read ∈ target.targetReads) :
    ∃ single ∈ target.singles, read ∈ single.operands ∧ single.targetNames = single.walrusNames := by
  obtain ⟨single, listed, within⟩ := mem_flatMap.mp member
  refine ⟨single, listed, ?_⟩
  cases single with
  | access | subscript => exact ⟨within, rfl⟩
  | _ => cases within

section Singles

variable {holds : Expr → Prop}
  (step : ∀ {whole part : Expr}, part ∈ whole.operands → holds whole → holds part)
include step

set_option linter.unusedSectionVars false in
mutual

theorem of_single {target single : Expr} (given : holds target) (member : single ∈ target.singles) :
    holds single := by
  cases target with
  | tuple _ elements _ | list _ elements _ =>
    exact of_singleAll (fun element listed => step listed given) member
  | starred _ value _ =>
    have inner : holds value := step (.head _) given
    exact of_single inner member
  | _ => exact mem_singleton.mp member ▸ given

theorem of_singleAll {targets : List Expr} {single : Expr}
    (given : ∀ target ∈ targets, holds target) (member : single ∈ singlesAll targets) :
    holds single := by
  cases targets with
  | nil => cases member
  | cons =>
    obtain ⟨first, others⟩ := forall_mem_cons.mp given
    rcases mem_append.mp member with here | later
    · exact of_single first here
    · exact of_singleAll others later

end

theorem of_targetRead {target read : Expr} (given : holds target)
    (member : read ∈ target.targetReads) : holds read := by
  obtain ⟨single, listed, below, _⟩ := single_of_targetRead member
  exact step below (of_single step given listed)

end Singles

mutual

theorem targetNames_of_single {target single : Expr} {name : String}
    (member : single ∈ target.singles) (bound : name ∈ single.targetNames) :
    name ∈ target.targetNames := by
  cases target with
  | tuple _ elements _ | list _ elements _ => exact targetNamesAll_of_single member bound
  | starred _ value =>
    have inner : name ∈ value.targetNames := targetNames_of_single member bound
    exact inner
  | _ => exact mem_singleton.mp member ▸ bound

theorem targetNamesAll_of_single {targets : List Expr} {single : Expr} {name : String}
    (member : single ∈ singlesAll targets) (bound : name ∈ single.targetNames) :
    name ∈ targetNamesAll targets := by
  cases targets with
  | nil => cases member
  | cons =>
    rcases mem_append.mp member with here | later
    · exact mem_append_left _ (targetNames_of_single here bound)
    · exact mem_append_right _ (targetNamesAll_of_single later bound)

end

theorem names_of_targetRead {names : Expr → List String} {read : Expr}
    (step : ∀ {whole part : Expr} {name : String}, part ∈ whole.operands → name ∈ names part →
      name ∈ names whole)
    (member : read ∈ target.targetReads) (found : name ∈ names read) : name ∈ names target := by
  let within (expr : Expr) : Prop := ∀ name ∈ names expr, name ∈ names target
  have passes {whole part : Expr} (below : part ∈ whole.operands) (given : within whole) :
      within part :=
    fun name found => given name (step below found)
  exact of_targetRead passes (show within target from fun _ => id) member name found

theorem targetNames_of_targetRead {read : Expr} (member : read ∈ target.targetReads)
    (bound : name ∈ read.walrusNames) : name ∈ target.targetNames := by
  obtain ⟨single, listed, below, same⟩ := single_of_targetRead member
  have found := walrusNames_of_operand below bound
  exact targetNames_of_single listed (same ▸ found)

end Expr

namespace Stmt

variable {stmt part : Stmt} {name : String}

theorem boundNamesAll_eq (body : List Stmt) : boundNamesAll body = body.flatMap boundNames := by
  induction body with
  | nil => rfl
  | cons _ _ ih => rw [boundNamesAll, ih, flatMap_cons]

theorem handlerNames_eq (handlers : List Handler) :
    handlerNames handlers = handlers.flatMap fun handler =>
      (if handler.name.isEmpty then [] else [handler.name]) ++ boundNamesAll handler.body := by
  induction handlers with
  | nil => rfl
  | cons handler _ ih =>
    obtain ⟨mark, type, name, body⟩ := handler
    rw [handlerNames, ih, flatMap_cons]

theorem sizeOf_lt_of_mem_inner (member : part ∈ stmt.inner) : sizeOf part < sizeOf stmt := by
  cases stmt with
  | branch | loop | each | manage =>
    simp only [inner, mem_append] at member
    grind [→ sizeOf_lt_of_mem]
  | guarded =>
    simp only [inner, mem_append, mem_flatMap] at member
    rcases member with ((listed | ⟨⟨_, _, _, body⟩, among, listed⟩) | listed) | listed
    all_goals grind [→ sizeOf_lt_of_mem]
  | function definition | class_ definition =>
    have := sizeOf_lt_of_mem (show part ∈ definition.body from member)
    cases definition
    simp_all
    omega
  | _ => cases member

/-- The statement and those below it that run in the same frame. -/
def running (stmt : Stmt) : List Stmt :=
  stmt :: stmt.nested.attach.flatMap fun ⟨part, _⟩ => part.running
termination_by sizeOf stmt
decreasing_by exact sizeOf_lt_of_mem_inner (mem_inner_of_nested (by assumption))

/-- Names that are found in no code that was read: only single targets are augmented there, and what
is imported from a module has no dots. -/
def unreadNames : Stmt → List String
  | augAssign _ target _ _ => if target.isSingleTarget then [] else target.walrusNames
  | importFrom _ _ names _ =>
    (names.filter fun imported => imported.storedName != imported.boundName).map (·.storedName)
  | _ => []

/-- The names that a statement stores and hoisting does not find: those that `:=` binds in a header,
those of which an attribute is set, and the unread ones. -/
def overlooked (stmt : Stmt) : List String :=
  stmt.headers.flatMap (·.walrusNames) ++ stmt.targets.flatMap (·.ownerNames) ++
    (stmt.headers ++ stmt.values ++ stmt.targets ++ stmt.deleted).flatMap (·.clauseOwners) ++
    stmt.unreadNames

def overlookedAll (body : List Stmt) : List String :=
  (body.flatMap running).flatMap overlooked

/-- Whether a statement imports all names of a module. -/
def importsAll : Stmt → Bool
  | importFrom _ _ names _ => names.any (·.name == "*")
  | _ => false

/-- The names that the bodies of classes send elsewhere, of those that run with a statement. -/
def classSent (stmt : Stmt) : List String :=
  match stmt with
  | function _ => []
  | stmt =>
    (match stmt with
      | class_ definition =>
        (redirectionsAll definition.body).globals ++ (redirectionsAll definition.body).nonlocals
      | _ => [])
      ++ stmt.inner.attach.flatMap fun ⟨part, _⟩ => part.classSent
termination_by sizeOf stmt
decreasing_by exact sizeOf_lt_of_mem_inner (by assumption)

theorem mem_running_self : stmt ∈ stmt.running := by
  unfold running
  exact mem_cons_self

theorem mem_running_of_nested {below : Stmt} (member : part ∈ stmt.nested)
    (runs : below ∈ part.running) : below ∈ stmt.running := by
  unfold running
  exact mem_cons_of_mem _ (mem_flatMap.mpr ⟨⟨part, member⟩, mem_attach _ _, runs⟩)

theorem of_running {holds : Stmt → Prop}
    (step : ∀ {whole part : Stmt}, part ∈ whole.nested → holds whole → holds part)
    {stmt part : Stmt} (given : holds stmt) (member : part ∈ stmt.running) : holds part := by
  unfold running at member
  rcases mem_cons.mp member with rfl | below
  · exact given
  · obtain ⟨⟨middle, nested⟩, _, runs⟩ := mem_flatMap.mp below
    exact of_running step (step nested given) runs
termination_by sizeOf stmt
decreasing_by exact sizeOf_lt_of_mem_inner (mem_inner_of_nested nested)

theorem classSent_of_inner (runs : ∀ definition, stmt ≠ function definition)
    (member : part ∈ stmt.inner) (sent : name ∈ part.classSent) : name ∈ stmt.classSent := by
  unfold classSent
  cases stmt with
  | function definition => exact absurd rfl (runs definition)
  | _ =>
    exact mem_append_right _ (mem_flatMap.mpr ⟨⟨part, member⟩, mem_attach _ _, sent⟩)

theorem classSent_of_sent {definition : ClassDef}
    (sent : name ∈ (redirectionsAll definition.body).globals ∨
      name ∈ (redirectionsAll definition.body).nonlocals) :
    name ∈ (class_ definition).classSent := by
  unfold classSent
  exact mem_append_left _ (mem_append.mpr sent)

theorem classSent_of_nested (member : part ∈ stmt.nested) (sent : name ∈ part.classSent) :
    name ∈ stmt.classSent := by
  refine classSent_of_inner (fun definition same => ?_) (mem_inner_of_nested member) sent
  subst same
  cases member

theorem boundNames_of_nested (member : part ∈ stmt.nested) (bound : name ∈ part.boundNames) :
    name ∈ stmt.boundNames := by
  have within {body : List Stmt} (listed : part ∈ body) : name ∈ boundNamesAll body :=
    boundNamesAll_eq body ▸ mem_flatMap.mpr ⟨part, listed, bound⟩
  cases stmt with
  | branch | loop | each =>
    simp only [boundNames, mem_append]
    exact (mem_append.mp member).imp (.inr ∘ within) within
  | manage => exact mem_append_right _ (within member)
  | guarded =>
    simp only [nested, inner, mem_append, mem_flatMap] at member
    simp only [boundNames, handlerNames_eq, mem_append, mem_flatMap]
    rcases member with ((listed | ⟨handler, among, listed⟩) | listed) | listed
    · exact .inl (.inl (.inl (within listed)))
    · exact .inl (.inl (.inr ⟨handler, among, .inr (within listed)⟩))
    · exact .inl (.inr (within listed))
    · exact .inr (within listed)
  | _ => cases member

theorem boundNames_of_running (member : part ∈ stmt.running) (bound : name ∈ part.boundNames) :
    name ∈ stmt.boundNames := by
  let within (part : Stmt) : Prop := ∀ name ∈ part.boundNames, name ∈ stmt.boundNames
  have step {whole part : Stmt} (nested : part ∈ whole.nested) (given : within whole) :
      within part :=
    fun name bound => given name (boundNames_of_nested nested bound)
  exact of_running step (show within stmt from fun _ => id) member name bound

variable {expr target : Expr}

theorem stored_of_read (member : expr ∈ stmt.headers ++ stmt.values)
    (stored : name ∈ expr.sideNames) : name ∈ stmt.boundNames ++ stmt.overlooked := by
  rcases mem_append.mp stored with bound | owner
  · rcases mem_append.mp member with header | value
    · have missed : name ∈ stmt.headers.flatMap (·.walrusNames) := mem_flatMap.mpr ⟨expr, header, bound⟩
      simp only [overlooked, mem_append]
      exact .inr (.inl (.inl (.inl missed)))
    · cases stmt <;> simp_all [values, boundNames, WithItem.boundNames] <;> grind
  · have missed : name ∈ (stmt.headers ++ stmt.values).flatMap (·.clauseOwners) :=
      mem_flatMap.mpr ⟨expr, member, owner⟩
    simp only [overlooked, flatMap_append, mem_append] at missed ⊢
    exact .inr (.inl (.inr (.inl (.inl missed))))

theorem stored_of_target (member : target ∈ stmt.targets)
    (stored : name ∈ target.targetNames ++ target.ownerNames) :
    name ∈ stmt.boundNames ++ stmt.overlooked := by
  rcases mem_append.mp stored with bound | owner
  · cases stmt <;>
      simp_all [targets, boundNames, WithItem.boundNames, Expr.targetNamesAll_eq] <;> grind
  · have missed : name ∈ stmt.targets.flatMap (·.ownerNames) := mem_flatMap.mpr ⟨target, member, owner⟩
    simp only [overlooked, mem_append]
    exact .inr (.inl (.inl (.inr missed)))

theorem stored_of_clauseOwner (member : target ∈ stmt.targets ++ stmt.deleted)
    (owner : name ∈ target.clauseOwners) : name ∈ stmt.boundNames ++ stmt.overlooked := by
  have missed : name ∈ (stmt.targets ++ stmt.deleted).flatMap (·.clauseOwners) :=
    mem_flatMap.mpr ⟨target, member, owner⟩
  simp only [overlooked, flatMap_append, mem_append] at missed ⊢
  grind

theorem stored_of_targetRead (member : target ∈ stmt.targets ++ stmt.deleted)
    (read : expr ∈ target.targetReads) (stored : name ∈ expr.sideNames) :
    name ∈ stmt.boundNames ++ stmt.overlooked := by
  rcases mem_append.mp stored with bound | owner
  · have hoisted := Expr.targetNames_of_targetRead read bound
    rcases mem_append.mp member with listed | listed
    · exact stored_of_target listed (mem_append_left _ hoisted)
    · cases stmt with
      | delete =>
        refine mem_append_left _ ?_
        simp only [boundNames, Expr.targetNamesAll_eq]
        exact mem_flatMap.mpr ⟨target, listed, hoisted⟩
      | _ => cases listed
  · have below := Expr.names_of_targetRead Expr.clauseOwners_of_operand read owner
    exact stored_of_clauseOwner member below

theorem stored_of_update {mark : Mark} {op : BinaryOp} (same : stmt = augAssign mark target op expr)
    (stored : name ∈ target.sideNames) : name ∈ stmt.boundNames ++ stmt.overlooked := by
  have listed : target ∈ stmt.targets := same ▸ mem_cons_self
  rcases mem_append.mp stored with bound | owner
  · cases single : target.isSingleTarget with
    | true =>
      refine stored_of_target listed (mem_append_left _ ?_)
      cases target with
      | name => simp [Expr.walrusNames, Expr.children] at bound
      | access | subscript => exact bound
      | _ => cases single
    | false =>
      have missed : name ∈ stmt.unreadNames := by simp [same, unreadNames, single, bound]
      exact mem_append_right _ (mem_append_right _ missed)
  · exact stored_of_clauseOwner (mem_append_left _ listed) owner

theorem stored_of_ownName (few : stmt.importsAll = false) (stored : name ∈ stmt.ownNames) :
    name ∈ stmt.boundNames ++ stmt.overlooked := by
  cases stmt with
  | guarded =>
    refine mem_append_left _ ?_
    simp only [ownNames, mem_filter, mem_map] at stored
    obtain ⟨⟨handler, among, rfl⟩, named⟩ := stored
    simp only [boundNames, handlerNames_eq, mem_append, mem_flatMap]
    exact .inl (.inl (.inr ⟨handler, among, .inl (by simp_all)⟩))
  | function definition | class_ definition =>
    cases definition
    exact mem_append_left _ stored
  | import_ => exact mem_append_left _ stored
  | importFrom mark module names level =>
    obtain ⟨imported, listed, rfl⟩ := mem_map.mp stored
    by_cases found : imported.storedName = imported.boundName
    · refine mem_append_left _ ?_
      have kept : imported ∈ names.filter (·.name != "*") := by simp_all [importsAll]
      exact mem_map.mpr ⟨imported, kept, found.symm⟩
    · have missed : imported.storedName ∈ unreadNames (.importFrom mark module names level) :=
        mem_map.mpr ⟨imported, mem_filter.mpr ⟨listed, by simpa using found⟩, rfl⟩
      exact mem_append_right _ (mem_append_right _ missed)
  | _ => cases stored

end Stmt

end Stubwise
