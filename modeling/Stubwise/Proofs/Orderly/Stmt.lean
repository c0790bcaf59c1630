import Stubwise.Infer.Stmt
import Stubwise.Proofs.Orderly.Expr

/-!
Statements that stand in the contexts of their places are executed in an orderly way, and so are
definitions, whose bodies are only kept for later.
-/

namespace Stubwise

open List Parameters Session

set_option synthInstance.maxSize 4000
variable {names : List ImportName} {body : List Stmt} {target : Expr}

def ImportName.storedName (imported : ImportName) : String :=
  if imported.asName.isEmpty then imported.name else imported.asName

namespace Stmt

/-- The expressions that are inferred when a definition runs, and the types of handlers. -/
def headers : Stmt → List Expr
  | function definition =>
    definition.decorators ++ (definition.params.defaults ++ definition.params.kwDefaults.filterMap id)
  | class_ definition => definition.decorators ++ definition.keywords.map (·.value)
  | guarded _ _ handlers _ _ => handlers.flatMap (·.type.toList)
  | _ => []

/-- The expressions that are inferred when another statement runs. -/
def values : Stmt → List Expr
  | expr _ value | assign _ _ value | augAssign _ _ _ value => [value]
  | annAssign _ _ _ value | give _ value => value.toList
  | raise _ error cause => error.toList ++ cause.toList
  | assert _ test message => test :: message.toList
  | branch _ test _ _ | loop _ test _ _ => [test]
  | each _ _ iter _ _ _ => [iter]
  | manage _ items _ _ => items.map (·.context)
  | _ => []

def targets : Stmt → List Expr
  | assign _ targets _ => targets
  | augAssign _ target _ _ | annAssign _ target _ _ | each _ target _ _ _ _ => [target]
  | manage _ items _ _ => items.flatMap (·.target.toList)
  | _ => []

def deleted : Stmt → List Expr
  | delete _ targets => targets
  | _ => []

/-- The names that a statement stores other than through its targets and expressions. -/
def ownNames : Stmt → List String
  | guarded _ _ handlers _ _ => (handlers.map (·.name)).filter (!·.isEmpty)
  | function definition => [definition.name]
  | class_ definition => [definition.name]
  | import_ _ names => names.map (·.boundName)
  | importFrom _ _ names _ => names.map (·.storedName)
  | _ => []

/-- The statements directly below a statement that run in the same frame. -/
def nested : Stmt → List Stmt
  | function _ | class_ _ => []
  | stmt => stmt.inner

variable {stmt : Stmt}

theorem mem_inner_of_nested {part : Stmt} (member : part ∈ stmt.nested) : part ∈ stmt.inner := by
  cases stmt with
  | function | class_ => cases member
  | _ => exact member

theorem mem_places_of_read {expr : Expr} (member : expr ∈ stmt.headers ++ stmt.values) :
    (.load, expr) ∈ stmt.places := by
  cases stmt with
  | function definition =>
    have listed : expr ∈ definition.decorators ++ definition.params.expressions := by
      simp only [headers, values, expressions, mem_append] at member ⊢
      grind
    exact mem_map.mpr ⟨expr, mem_append_left _ listed, rfl⟩
  | class_ | manage => simp_all [headers, values, places, WithItem.places] <;> grind
  | _ => simp_all [headers, values, places, ownExprs]

theorem mem_places_of_target (member : target ∈ stmt.targets) : (.store, target) ∈ stmt.places := by
  cases stmt <;> simp_all [targets, places, WithItem.places]

theorem mem_places_of_deleted (member : target ∈ stmt.deleted) : (.del, target) ∈ stmt.places := by
  cases stmt <;> simp_all [deleted, places]

end Stmt

namespace Walker

section Accounts

variable [Standard] [Accountable Infer] [Bookkeeping] {walker : Walker} [walker.engine.Reliable]

omit [walker.engine.Reliable] in
theorem importName_orderly (module : String) {imported : ImportName}
    (stores : Stores walker.frame imported.storedName) [Proper imported.mark.position] :
    Orderly (walker.importName module imported) := by
  have stored (t : Ty) := stores.store t
  unfold ImportName.storedName at stored
  unfold importName
  infer_instance

section Public

variable [∀ name, Stores walker.frame name] [∀ name, Orderly (modifyFrame walker.frame (·.declare name))]

instance (position : Position) (module : String) [here : Proper position] :
    Orderly (walker.importAll position module) := by
  refine @placingAt_orderly _ _ _ _ _ _ _ here (orderly_get fun session => ?_)
  refine orderly_bind fun decl _ => ?_
  split <;> infer_instance

end Public

omit [walker.engine.Reliable] in
theorem importFrom_orderly (position : Position) [Proper position] (module : String) (level : Nat)
    (stores : ∀ imported ∈ names, Stores walker.frame imported.storedName)
    (places : ∀ imported ∈ names, Proper imported.mark.position)
    (all : (∃ imported ∈ names, imported.name = "*") → ∀ module, Orderly (walker.importAll position module)) :
    Orderly (walker.importFrom position module names level) := by
  refine orderly_bind fun module _ => ?_
  split
  · rename_i imported
    split
    · rename_i star
      exact all ⟨imported, mem_cons_self, by simpa using star⟩ module
    · have here := places imported mem_cons_self
      exact importName_orderly module (stores imported mem_cons_self)
  · refine orderly_forM fun imported member => ?_
    have here := places imported member
    exact importName_orderly module (stores imported member)

omit [walker.engine.Reliable] in
theorem inferHeader_orderly {exprs : List Expr} (each : ∀ expr ∈ exprs, Orderly (walker.infer false expr))
    (places : ∀ expr ∈ exprs, Proper expr.position) :
    Orderly (walker.inferHeader exprs) := by
  refine orderly_forM fun expr member => ?_
  have read := each expr member
  have here := places expr member
  infer_instance

theorem defineFunction_orderly {definition : FunctionDef} [Proper definition.mark.position]
    (reads : ∀ expr ∈ (Stmt.function definition).headers, Orderly (walker.infer false expr))
    (places : ∀ expr ∈ (Stmt.function definition).headers, Proper expr.position)
    (keeps : ∀ info : FuncInfo, info.definition = definition →
      Orderly (modify fun session : Session => { session with
        functions := session.functions.insert definition.mark.node info
        pending := session.pending.push definition.mark.node } : Infer Unit))
    [Stores walker.frame definition.name] : Orderly (walker.defineFunction definition) := by
  obtain ⟨decorators, defaults⟩ := forall_mem_append.mp reads
  obtain ⟨first, second⟩ := forall_mem_append.mp places
  have marks := inferHeader_orderly decorators first
  have values := inferHeader_orderly defaults second
  refine orderly_bind fun _ _ => orderly_bind fun _ _ => orderly_pair fun signature faults _ _ => ?_
  have reported : Orderly (faults.forM (reportFault · definition.mark.position)) :=
    orderly_forM fun fault member =>
      have := Proper.of_mem member
      inferInstance
  refine orderly_bind fun _ _ => ?_
  refine @orderly_bind _ _ _ _ _ _ _ _ _ (keeps _ rfl) fun _ _ => ?_
  infer_instance

theorem declareClass_orderly {definition : ClassDef}
    (reads : ∀ expr ∈ (Stmt.class_ definition).headers, Orderly (walker.infer false expr))
    (places : ∀ expr ∈ (Stmt.class_ definition).headers ++ definition.bases, Proper expr.position) :
    Orderly (walker.declareClass definition.name definition.bases definition.keywords
      definition.decorators) := by
  obtain ⟨marks, named⟩ := forall_mem_append.mp reads
  obtain ⟨headers, bases⟩ := forall_mem_append.mp places
  obtain ⟨decorators, keywords⟩ := forall_mem_append.mp headers
  have first := inferHeader_orderly marks decorators
  have second := inferHeader_orderly named keywords
  have third : Orderly (definition.bases.mapM walker.baseType?) := ⟨yields_mapM fun base member =>
      have here := bases base member
      (inferInstance : Orderly (walker.baseType? base)).yields⟩
  unfold declareClass
  infer_instance

set_option linter.unusedSectionVars false in
mutual

theorem caught_orderly (t : Ty) : Orderly (caught walker.engine t) := by
  unfold caught
  split
  · infer_instance
  · rename_i elements
    have each := caughtEach_orderly elements
    infer_instance
  · infer_instance

theorem caughtEach_orderly (types : List Ty) : Orderly (caughtEach walker.engine types) := by
  unfold caughtEach
  split
  · infer_instance
  · rename_i t rest
    have first := caught_orderly t
    have others := caughtEach_orderly rest
    infer_instance

end

instance (t : Ty) : Orderly (caught walker.engine t) := caught_orderly t

omit [walker.engine.Reliable] in
theorem execAssign_orderly {targets : List Expr} {value : Expr}
    [Orderly (walker.infer false value)] [Orderly (walker.bindAnyAll targets)]
    (each : ∀ target ∈ targets, ∀ t, Orderly (walker.assign t target)) :
    Orderly (walker.execAssign targets value) := by
  have all (t : Ty) : Orderly (walker.assignAll t targets) := assignAll_orderly t each
  unfold execAssign
  infer_instance

theorem execAugAssign_orderly (position : Position) [Proper position] (op : BinaryOp) {value : Expr}
    [Orderly (walker.infer true target)] [Orderly (walker.infer false value)]
    [∀ t, Orderly (walker.assign t target)] :
    Orderly (walker.execAugAssign position target op value) := by
  unfold execAugAssign
  infer_instance

theorem execAnnAssign_orderly (hint : Expr) [Proper hint.position]
    {value : Option Expr} [∀ t, Orderly (walker.assign t target)] [Orderly (walker.bindAny target)]
    (given : ∀ expr ∈ value, Orderly (walker.infer false expr)) :
    Orderly (walker.execAnnAssign target hint value) := by
  unfold execAnnAssign
  cases value with
  | none => infer_instance
  | some expr =>
    have read := given expr rfl
    infer_instance

omit [Standard] [Bookkeeping] [walker.engine.Reliable] in
theorem execDeleteAll_orderly {targets : List Expr}
    (each : ∀ target ∈ targets, Orderly (walker.execDelete target)) :
    Orderly (walker.execDeleteAll targets) := by
  induction targets with
  | nil =>
    unfold execDeleteAll
    infer_instance
  | cons _ _ ih =>
    obtain ⟨first, others⟩ := forall_mem_cons.mp each
    have later := ih others
    unfold execDeleteAll
    infer_instance

omit [walker.engine.Reliable] in
theorem execReturn_orderly (position : Position) [Proper position] {value : Option Expr}
    (given : ∀ expr ∈ value, Orderly (walker.infer false expr)) :
    Orderly (walker.execReturn position value) := by
  unfold execReturn
  cases value with
  | none => infer_instance
  | some expr =>
    have read := given expr rfl
    infer_instance

theorem enterItem_orderly {item : WithItem} (managed : Orderly (walker.infer false item.context))
    (assigned : ∀ target ∈ item.target, ∀ t, Orderly (walker.assign t target))
    (places : ∀ place ∈ item.places, Proper place.2.position) : Orderly (walker.enterItem item) := by
  obtain ⟨context, target⟩ := item
  have here : Proper context.position := places (.load, context) mem_cons_self
  unfold enterItem
  cases target with
  | none => infer_instance
  | some target =>
    have assigned := assigned target rfl
    have there : Proper target.position := places (.store, target) (.tail _ (.head _))
    infer_instance

theorem bindHandler_orderly {type : Option Expr} (name : String)
    (given : ∀ expr ∈ type, Orderly (walker.infer false expr))
    (stores : name.isEmpty = false → Stores walker.frame name) :
    Orderly (walker.bindHandler type name) := by
  unfold bindHandler
  cases empty : name.isEmpty with
  | true =>
    simp only [if_true]
    cases type with
    | none => infer_instance
    | some type =>
      have read := given type rfl
      infer_instance
  | false =>
    have stored := stores empty
    cases type with
    | none => infer_instance
    | some type =>
      have read := given type rfl
      infer_instance

instance (failed : Option Fault) [known : Proper failed] : Orderly (throwIfSome failed) := by
  unfold throwIfSome
  cases failed with
  | none => infer_instance
  | some fault =>
    have fault_proper : Proper fault := ⟨known.holds fault rfl⟩
    infer_instance

omit [walker.engine.Reliable] in
theorem execBody_orderly (each : ∀ stmt ∈ body, Orderly (walker.exec stmt))
    (places : ∀ stmt ∈ body, Proper stmt.position) : Orderly (walker.execBody body) := by
  induction body with
  | nil =>
    unfold execBody
    infer_instance
  | cons _ _ ih =>
    obtain ⟨first, others⟩ := forall_mem_cons.mp each
    obtain ⟨here, places⟩ := forall_mem_cons.mp places
    have later := ih others places
    unfold execBody
    infer_instance

omit [walker.engine.Reliable] in
theorem execHandlers_orderly {handlers : List Handler}
    (binds : ∀ handler ∈ handlers, Orderly (walker.bindHandler handler.type handler.name))
    (bodies : ∀ handler ∈ handlers, Orderly (walker.execBody handler.body))
    (places : ∀ handler ∈ handlers, Proper handler.mark.position) : Orderly (walker.execHandlers handlers) := by
  induction handlers with
  | nil =>
    unfold execHandlers
    infer_instance
  | cons handler _ ih =>
    obtain ⟨mark, type, name, body⟩ := handler
    obtain ⟨bound, others⟩ := forall_mem_cons.mp binds
    obtain ⟨run, more⟩ := forall_mem_cons.mp bodies
    obtain ⟨here, places⟩ := forall_mem_cons.mp places
    have later := ih others more places
    unfold execHandlers
    infer_instance

/-- A statement is executed in an orderly way where its own parts are dealt with in one. -/
theorem exec_orderly {stmt : Stmt} (places : ∀ position ∈ stmt.positions, Proper position)
    (reads : ∀ expr ∈ stmt.headers ++ stmt.values, Orderly (walker.infer false expr))
    (updates : ∀ mark target op value, stmt = .augAssign mark target op value →
      Orderly (walker.infer true target))
    (assigns : ∀ target ∈ stmt.targets, ∀ t, Orderly (walker.assign t target))
    (deletes : ∀ target ∈ stmt.deleted, Orderly (walker.execDelete target))
    (stores : ∀ name ∈ stmt.targets.flatMap (·.targetNames) ++ stmt.ownNames, Stores walker.frame name)
    (stars : ∀ mark module names level, stmt = .importFrom mark module names level →
      (∃ imported ∈ names, imported.name = "*") →
      ∀ module, Orderly (walker.importAll mark.position module))
    (keeps : ∀ definition, stmt = .function definition → ∀ info : FuncInfo, info.definition = definition →
      Orderly (modify fun session : Session => { session with
        functions := session.functions.insert definition.mark.node info
        pending := session.pending.push definition.mark.node } : Infer Unit))
    (classes : ∀ definition, stmt = .class_ definition → ∀ cls : Class, Orderly (do
        let frame ← addFrame (.ofBody .class_ definition.name definition.body walker.frame)
        execBody { walker with frame, cls := some cls, classes := walker.classes ++ [cls] } definition.body
        completeClass cls frame definition.body
        storeName walker.frame definition.name (.type (.cls cls.ref))))
    (inner : ∀ part ∈ stmt.nested, Orderly (walker.exec part)) :
    Orderly (walker.exec stmt) := by
  simp only [Stmt.positions, forall_mem_append, forall_mem_map] at places
  obtain ⟨⟨marks, exprs⟩, stmts⟩ := places
  have runs (body : List Stmt) (listed : ∀ part ∈ body, part ∈ stmt.nested := by
      simp +contextual [Stmt.nested, Stmt.inner]) : Orderly (walker.execBody body) :=
    execBody_orderly (fun part member => inner part (listed part member))
      fun part member => stmts part (Stmt.mem_inner_of_nested (listed part member))
  obtain ⟨bound, stores⟩ := forall_mem_append.mp stores
  unfold exec
  cases stmt with
  | expr _ value =>
    have read := reads value mem_cons_self
    infer_instance
  | assign _ targets value =>
    have read := reads value mem_cons_self
    have unbound : Orderly (walker.bindAnyAll targets) := bindAnyAll_orderly fun name member =>
      bound name (Expr.targetNamesAll_eq targets ▸ member)
    exact execAssign_orderly assigns
  | augAssign mark target op value =>
    have current := updates mark target op value rfl
    have read := reads value mem_cons_self
    have assigned := assigns target mem_cons_self
    have here := marks mark mem_cons_self
    exact execAugAssign_orderly mark.position op
  | annAssign _ target hint =>
    have assigned := assigns target mem_cons_self
    have unbound : Orderly (walker.bindAny target) :=
      bindAny_orderly (forall_mem_append.mp bound).1
    have here : Proper hint.position := exprs (.load, hint) (.tail _ (.head _))
    exact execAnnAssign_orderly hint fun expr found => reads expr (Option.mem_toList.mpr found)
  | delete => exact execDeleteAll_orderly deletes
  | pass | leave | next | global | nonlocal => infer_instance
  | give mark =>
    have here := marks mark mem_cons_self
    exact execReturn_orderly mark.position fun expr found =>
      reads expr (Option.mem_toList.mpr found)
  | raise _ error cause =>
    have first : Orderly (walker.inferOption error) :=
      inferOption_orderly fun expr found => reads expr (by simp_all [Stmt.values])
    have second : Orderly (walker.inferOption cause) :=
      inferOption_orderly fun expr found => reads expr (by simp_all [Stmt.values])
    infer_instance
  | assert _ test message =>
    have first := reads test mem_cons_self
    have second : Orderly (walker.inferOption message) :=
      inferOption_orderly fun expr found => reads expr (by simp_all [Stmt.values])
    infer_instance
  | branch mark test body orElse | loop mark test body orElse =>
    have read := reads test mem_cons_self
    have yes := runs body
    have no := runs orElse
    infer_instance
  | each mark target iter body orElse =>
    have assigned := assigns target mem_cons_self
    have unbound : Orderly (walker.bindAny target) :=
      bindAny_orderly (forall_mem_append.mp bound).1
    have read := reads iter mem_cons_self
    have here := marks mark mem_cons_self
    have there : Proper iter.position := exprs (.load, iter) (.tail _ (.head _))
    have yes := runs body
    have no := runs orElse
    infer_instance
  | manage _ items body =>
    have entered : Orderly (items.forM walker.enterItem) := orderly_forM fun item member =>
      enterItem_orderly (reads _ (mem_map_of_mem member))
        (fun target found => assigns target (mem_flatMap.mpr ⟨item, member, Option.mem_toList.mpr found⟩))
        fun place listed => exprs place (mem_flatMap.mpr ⟨item, member, listed⟩)
    have run := runs body
    infer_instance
  | guarded _ body handlers orElse finish =>
    have run := runs body
    have handled : Orderly (walker.execHandlers handlers) :=
      execHandlers_orderly (fun handler member => bindHandler_orderly handler.name
          (fun expr found => reads expr (mem_append_left _
            (mem_flatMap.mpr ⟨handler, member, Option.mem_toList.mpr found⟩)))
          fun named => stores _ (mem_filter.mpr ⟨mem_map_of_mem member, by simp [named]⟩))
        (fun handler member => runs handler.body fun part within => by
          simp only [Stmt.nested, Stmt.inner, mem_append, mem_flatMap]
          exact .inl (.inl (.inr ⟨handler, member, within⟩)))
        (fun handler member => marks _ (.tail _ (mem_map_of_mem member)))
    have no := runs orElse
    have finished := runs finish
    infer_instance
  | function definition =>
    have stored := stores definition.name mem_cons_self
    have here : Proper definition.mark.position := marks definition.mark mem_cons_self
    exact defineFunction_orderly (forall_mem_append.mp reads).1
      (fun expr member => exprs (.load, expr) (Stmt.mem_places_of_read (mem_append_left _ member)))
      (keeps definition rfl)
  | class_ definition =>
    have declared : Orderly (walker.declareClass definition.name definition.bases
        definition.keywords definition.decorators) := by
      refine declareClass_orderly (forall_mem_append.mp reads).1
        fun expr member => exprs (.load, expr) ?_
      rcases mem_append.mp member with header | base
      · exact Stmt.mem_places_of_read (mem_append_left _ header)
      · simp [Stmt.places, base]
    obtain ⟨mark, name, bases, keywords, body, decorators⟩ := definition
    exact orderly_bind fun cls _ => classes _ rfl cls
  | import_ =>
    refine orderly_forM fun imported member => ?_
    have stored := stores _ (mem_map_of_mem member)
    have here := marks _ (.tail _ (mem_map_of_mem member))
    infer_instance
  | importFrom mark module names level =>
    have here := marks mark mem_cons_self
    exact importFrom_orderly mark.position module level
      (fun imported member => stores _ (mem_map_of_mem member))
      (fun imported member => marks _ (.tail _ (mem_map_of_mem member)))
      (stars mark module names level rfl)

end Accounts

end Walker

section Standards

variable [Standard]

theorem Expr.Stands.deletable {context : Context} {expr : Expr} (stands : expr.Stands context)
    (near : expr.Near proper) (deleted : context = .del) (walker : Walker)
    [walker.engine.Reliable] : Orderly (walker.execDelete expr) := by
  induction stands with
  | @intro context expr fits below ih =>
    subst deleted
    have here := near.here
    have parts (place : Context × Expr) (member : place ∈ expr.places) : place.2.Serves place.1 :=
      (below place member).serves (near.part member)
    unfold Walker.execDelete
    cases expr with
    | name mark =>
      have place : Proper mark.position := ⟨here⟩
      infer_instance
    | tuple mark elements context | list mark elements context =>
      obtain rfl : context = .del := by simpa [Expr.fits] using fits
      refine Walker.execDeleteAll_orderly fun element member => ?_
      have place : (.del, element) ∈ elements.map (Context.del, ·) := mem_map_of_mem member
      exact ih (.del, element) place (near.part place) rfl
    | access mark value =>
      have place : Proper mark.position := ⟨here⟩
      have read : value.Readable := readable_children parts rfl value mem_cons_self
      refine orderly_bind fun base _ => orderly_bind fun _ _ => ?_
      split <;> infer_instance
    | subscript mark value index =>
      have place : Proper mark.position := ⟨here⟩
      have read := readable_children parts rfl
      have first : value.Readable := read value (by simp [children])
      have second : index.Readable := read index (by simp [children])
      infer_instance
    | _ => exact absurd fits (by simp [Expr.fits])

/-- Statements that are executed in an orderly way. -/
class Stmt.Runnable (stmt : Stmt) : Prop where
  run : ∀ (walker : Walker) [walker.engine.Reliable], Orderly (walker.exec stmt)

attribute [instance] Stmt.Runnable.run

namespace Stmt

variable {stmt : Stmt}

theorem runnable_of_inner (stands : stmt.Stands) (near : stmt.Near proper)
    (inner : ∀ part ∈ stmt.inner, part.Runnable) : stmt.Runnable where
  run := by
    intro walker _
    refine Walker.exec_orderly (fun position member => ⟨near.positions position member⟩)
      (fun expr member => ?_) (fun mark target op value same => ?_)
      (fun target member => ?_) (fun target member => ?_) (fun _ _ => inferInstance)
      (fun mark module names level same _ _ => ?_) (fun definition same => ?_)
      (fun definition same => ?_) (fun part member => ?_)
    · have place := mem_places_of_read member
      have read : expr.Readable := (stands.part place).serves (near.part place)
      exact read.infer walker false
    · subst same
      exact (stands.part (.head _)).target_read (near.part (.head _)) stands.own walker
    · have place := mem_places_of_target member
      have assigned : target.Assignable := (stands.part place).serves (near.part place)
      exact assigned.assign walker
    · have place := mem_places_of_deleted member
      exact (stands.part place).deletable (near.part place) rfl walker
    · subst same
      have here : Proper mark.position := ⟨near.here⟩
      infer_instance
    · subst same
      intro info same
      have info_proper : Proper info := by
        subst same
        exact ⟨stands, near⟩
      infer_instance
    · subst same
      have run (walker : Walker) [walker.engine.Reliable] : Orderly (walker.execBody definition.body) :=
        Walker.execBody_orderly (fun part member => (inner part member).run walker)
          fun part member => ⟨(near.within member).here⟩
      infer_instance
    · exact (inner part (mem_inner_of_nested member)).run walker

theorem Stands.runnable (stands : stmt.Stands) (near : stmt.Near proper) : stmt.Runnable := by
  induction stands with
  | intro fits exprs stmts ih =>
    exact runnable_of_inner (.intro fits exprs stmts) near fun part member =>
      ih part member (near.within member)

end Stmt

/-- Bodies that are executed in an orderly way. -/
class RunnableBody (body : List Stmt) : Prop where
  run : ∀ (walker : Walker) [walker.engine.Reliable], Orderly (walker.execBody body)

attribute [instance] RunnableBody.run

theorem runnableBody_of_stands (stand : ∀ stmt ∈ body, stmt.Stands)
    (near : ∀ stmt ∈ body, stmt.Near proper) : RunnableBody body where
  run walker := Walker.execBody_orderly
    (fun stmt member => ((stand stmt member).runnable (near stmt member)).run walker)
    fun stmt member => ⟨(near stmt member).here⟩

instance [every : AllProper Position] (body : List Stmt) [all : Proper body] : RunnableBody body :=
  runnableBody_of_stands all.holds fun stmt member => .of_stands every.all (all.holds stmt member)

end Standards

end Stubwise
