import Stubwise.Infer.Run
import Stubwise.Proofs.Scope.Names
import Stubwise.Proofs.Scope.Watched

namespace Stubwise

open List Frames

set_option synthInstance.maxSize 4000
section Watching

variable [Watch]

/-- An engine that keeps the watch whenever work starts. -/
class Engine.Watched (engine : Engine) : Prop where
  reliable : ∀ [Since], engine.Reliable

attribute [instance] Engine.Watched.reliable

/-- Expressions that keep the watch if the names that they store may be stored. -/
structure Expr.Watched (expr : Expr) : Prop where
  infer : ∀ [since : Since] (walker : Walker) [walker.engine.Watched] (asLoad : Bool),
    (∀ name ∈ expr.sideNames, Watch.Frees since.frames walker.frame name) →
    Orderly (walker.infer asLoad expr)

namespace Walker

variable [since : Since] {walker : Walker} [walker.engine.Watched]

theorem assign_watched (target : Expr)
    (reads : ∀ expr ∈ target.targetReads, ∀ asLoad, Orderly (walker.infer asLoad expr))
    (bound : ∀ name ∈ target.targetNames, Stores walker.frame name)
    (owned : ∀ name ∈ target.ownerNames, Stores walker.frame name) (t : Ty) :
    Orderly (walker.assign t target) := by
  cases target with
  | name _ id =>
    have stored := bound id mem_cons_self
    unfold assign
    infer_instance
  | tuple mark elements context | list mark elements context =>
    have assigned (element : Expr) (member : element ∈ elements) (t : Ty) :
        Orderly (walker.assign t element) := by
      refine assign_watched element (fun expr read => reads expr (Expr.mem_flatMap_singlesAll member read))
        (fun name stored => bound name ?_)
        (fun name owner => owned name (Expr.mem_flatMap_singlesAll member owner)) t
      show name ∈ Expr.targetNamesAll elements
      rw [Expr.targetNamesAll_eq]
      exact mem_flatMap.mpr ⟨element, member, stored⟩
    have each (types : List Ty) := assignParts_orderly types assigned
    have all (t : Ty) := assignAll_orderly t assigned
    have unbound : Orderly (walker.bindAnyAll elements) := bindAnyAll_orderly bound
    unfold assign
    infer_instance
  | starred _ value =>
    have assigned : Orderly (walker.assign (.listOf t) value) := assign_watched value reads bound owned _
    exact assigned
  | access mark value attr context =>
    have read := reads value mem_cons_self true
    have member (base : Ty) : Orderly (walker.assignMember base value attr t) := by
      refine assignMember_orderly base attr t fun mark id context same => ?_
      subst same
      exact owned id mem_cons_self
    unfold assign
    split <;> infer_instance
  | subscript _ value index =>
    have first := reads value mem_cons_self true
    have second := reads index (mem_cons_of_mem _ mem_cons_self) false
    unfold assign
    infer_instance
  | _ =>
    unfold assign
    infer_instance
termination_by sizeOf target

theorem execDelete_watched (target : Expr)
    (reads : ∀ expr ∈ target.targetReads, ∀ asLoad, Orderly (walker.infer asLoad expr)) :
    Orderly (walker.execDelete target) := by
  cases target with
  | tuple mark elements context | list mark elements context =>
    have each (element : Expr) (member : element ∈ elements) : Orderly (walker.execDelete element) := by
      refine execDelete_watched element fun expr read => reads expr ?_
      exact Expr.mem_flatMap_singlesAll member read
    exact execDeleteAll_orderly each
  | access _ value =>
    have read := reads value mem_cons_self true
    unfold execDelete
    refine orderly_bind fun base _ => orderly_bind fun _ _ => ?_
    split <;> infer_instance
  | subscript _ value index =>
    have first := reads value mem_cons_self true
    have second := reads index (mem_cons_of_mem _ mem_cons_self) false
    unfold execDelete
    infer_instance
  | _ =>
    unfold execDelete
    infer_instance
termination_by sizeOf target

end Walker

namespace Expr

theorem clauses_watched {before : Frames} {expr : Expr} {walker : Walker} {id : Nat}
    [walker.engine.Watched] [now : Since] (parts : ∀ part ∈ expr.operands, part.Watched)
    (reads : ∀ part ∈ expr.operands, ∀ read ∈ part.targetReads, read.Watched)
    (listed : ∀ part ∈ expr.clauses.flatMap (·.expressions), part ∈ expr.operands)
    (frees : ∀ name ∈ expr.sideNames, Watch.Frees before walker.frame name)
    (added : Watch.Added before now.frames (.ofClauses expr.clauses walker.frame) id) :
    Orderly (walker.runClauses (walker.within id) expr.clauses) ∧
      ∀ part ∈ expr.operands, Orderly ((walker.within id).infer false part) := by
  have inner_watched : (walker.within id).engine.Watched := ‹_›
  have below (part : Expr) (member : part ∈ expr.operands) :
      Orderly ((walker.within id).infer false part) :=
    (parts part member).infer (walker.within id) false fun name stored =>
      added.frees (frees name (sideNames_of_operand member stored))
  refine ⟨Walker.runClauses_orderly (fun _ _ => inferInstance) (fun clause member => ?_)
    (fun clause member => ?_), below⟩
  · have iterated : clause.iter ∈ expr.operands := listed _ (mem_flatMap.mpr
      ⟨clause, member, by simp [Comprehension.expressions]⟩)
    exact (parts _ iterated).infer walker false fun name stored =>
      (frees name (sideNames_of_operand iterated stored)).grows added.grown
  · have within (part : Expr) (among : part ∈ clause.expressions) : part ∈ expr.operands :=
      listed part (mem_flatMap.mpr ⟨clause, member, among⟩)
    have target := within clause.target (by simp [Comprehension.expressions])
    have kept (name : String) (bound : name ∈ clause.target.targetNames) : Stores id name :=
      stores_of_lets (.inr (added.keeps (mem_flatMap.mpr ⟨clause, member, bound⟩)))
    refine ⟨below _ (within _ (by simp [Comprehension.expressions])),
      Walker.assign_watched clause.target (fun read found asLoad => ?_) kept fun name owner => ?_,
      fun condition among => below _ (within _ (by simp [Comprehension.expressions, among]))⟩
    · refine (reads _ target read found).infer (walker.within id) asLoad fun name stored => ?_
      have side := names_of_targetRead sideNames_of_operand found stored
      exact added.frees (frees name (sideNames_of_operand target side))
    · -- A name of which an attribute is set is local to the comprehension, or overlooked around it.
      by_cases bound : name ∈ expr.clauses.flatMap fun clause => clause.target.targetNames
      · exact stores_of_lets (.inr (added.keeps bound))
      · have side := clauseOwners_of_clause member owner bound
        exact stores_of_lets (.inl (added.frees (frees name (mem_append_right _ side))))

theorem watched_of_parts {expr : Expr} (parts : ∀ part ∈ expr.operands, part.Watched)
    (reads : ∀ part ∈ expr.operands, ∀ read ∈ part.targetReads, read.Watched) : expr.Watched := by
  refine ⟨fun {since} walker watched asLoad frees => ?_⟩
  cases form : expr.isComprehension with
  | false =>
    refine Walker.infer_orderly form (.inr fun _ _ => inferInstance) ?_ fun depth part member => ?_
    · intro mark target id value same
      have bound : id ∈ expr.sideNames := by
        subst same
        simp [sideNames, walrusNames]
      exact stores_of_lets (.inl (frees id bound))
    · exact (parts part member).infer { walker with depth } false fun name stored =>
        frees name (sideNames_of_operand member stored)
  | true =>
    unfold Walker.infer
    refine Walker.shown_orderly asLoad expr fun depth => ?_
    have inner_watched : ({ walker with depth } : Walker).engine.Watched := ‹_›
    have inner_frees : ∀ name ∈ expr.sideNames,
        Watch.Frees since.frames ({ walker with depth } : Walker).frame name := frees
    generalize ({ walker with depth } : Walker) = inner at inner_watched inner_frees ⊢
    cases expr with
    | listComp mark element clauses | setComp mark element clauses
    | generator _ element clauses =>
      refine orderly_addFrame fun now id added => ?_
      obtain ⟨clauses_run, below⟩ := clauses_watched parts reads
        (fun _ => mem_cons_of_mem _) inner_frees added
      have run : Orderly (inner.runClauses (inner.within id) clauses) := clauses_run
      have element_watched := below element mem_cons_self
      infer_instance
    | dictComp _ key value clauses =>
      refine orderly_addFrame fun now id added => ?_
      obtain ⟨clauses_run, below⟩ := clauses_watched parts reads
        (fun part member => mem_cons_of_mem _ (mem_cons_of_mem _ member))
        inner_frees added
      have run : Orderly (inner.runClauses (inner.within id) clauses) := clauses_run
      have key_watched := below key mem_cons_self
      have value_watched := below value (mem_cons_of_mem _ mem_cons_self)
      infer_instance
    | _ => cases form

theorem all_watched (expr : Expr) : expr.Watched := by
  have smaller {part : Expr} (member : part ∈ expr.operands) : sizeOf part < sizeOf expr :=
    sizeOf_lt_of_mem_children (mem_children_of_operand member)
  refine watched_of_parts (fun part member => ?_) fun part member read found => ?_
  · have below := smaller member
    exact all_watched part
  · have shrinks {whole part : Expr} (member : part ∈ whole.operands)
        (below : sizeOf whole < sizeOf expr) : sizeOf part < sizeOf expr :=
      Nat.lt_trans (sizeOf_lt_of_mem_children (mem_children_of_operand member)) below
    have below := of_targetRead shrinks (smaller member) found
    exact all_watched read
termination_by sizeOf expr

end Expr

namespace Stmt

structure Fits [since : Since] (frame : Nat) (stmt : Stmt) : Prop where
  names : ∀ name ∈ stmt.boundNames ++ stmt.overlooked, Watch.Frees since.frames frame name
  stars : stmt.importsAll = true → Watch.Spare since.frames frame

theorem fits_of_spare [since : Since] {frame : Nat} (spare : Watch.Spare since.frames frame)
    (stmt : Stmt) : stmt.Fits frame :=
  ⟨fun _ _ => .inr spare, fun _ => spare⟩

variable [since : Since] {walker : Walker} [walker.engine.Watched] {stmt : Stmt}

omit [walker.engine.Watched] in
theorem stores_of_fits (fits : stmt.Fits walker.frame) {name : String}
    (stored : name ∈ stmt.targets.flatMap (·.targetNames) ++ stmt.ownNames) :
    Stores walker.frame name := by
  cases all : stmt.importsAll with
  | true => exact stores_of_lets (.inl (.inr (fits.stars all)))
  | false =>
    refine stores_of_lets (.inl (fits.names name ?_))
    rcases mem_append.mp stored with bound | own
    · obtain ⟨target, listed, found⟩ := mem_flatMap.mp bound
      exact stored_of_target listed (mem_append_left _ found)
    · exact stored_of_ownName all own

omit [walker.engine.Watched] in
theorem importAll_watched (spare : Watch.Spare since.frames walker.frame) (position : Position)
    (module : String) : Orderly (walker.importAll position module) := by
  have stores (name : String) : Stores walker.frame name := stores_of_lets (.inl (.inr spare))
  have declares (name : String) := declare_watched spare name
  infer_instance

end Stmt

/-- A statement only stores names that its frame admits. The induction is on the statement. -/
theorem Walker.exec_watched (stmt : Stmt) [since : Since] (walker : Walker)
    [watched : walker.engine.Watched] (fits : ∀ part ∈ stmt.running, part.Fits walker.frame)
    (classes : ∀ name ∈ stmt.classSent, Watch.Admits name) : Orderly (walker.exec stmt) := by
  have own := fits stmt Stmt.mem_running_self
  have infers {expr : Expr} (asLoad : Bool)
      (stored : ∀ name ∈ expr.sideNames, name ∈ stmt.boundNames ++ stmt.overlooked) :
      Orderly (walker.infer asLoad expr) :=
    expr.all_watched.infer walker asLoad fun name found => own.names name (stored name found)
  refine exec_orderly (fun _ _ => inferInstance) (fun expr member => ?_)
    (fun mark target op value same => ?_) (fun target member => ?_) (fun target member => ?_)
    (fun name => Stmt.stores_of_fits own) (fun mark module names level same star => ?_)
    (fun definition same info kept => ?_) (fun definition same cls => ?_) (fun part member => ?_)
  · exact infers false fun name => Stmt.stored_of_read member
  · exact infers true fun name => Stmt.stored_of_update same
  · refine assign_watched target (fun read found asLoad => ?_) (fun name bound => ?_) fun name owner => ?_
    · exact infers asLoad fun name =>
        Stmt.stored_of_targetRead (mem_append_left _ member) found
    · exact stores_of_lets (.inl (own.names name (Stmt.stored_of_target member (mem_append_left _ bound))))
    · exact stores_of_lets (.inl (own.names name (Stmt.stored_of_target member (mem_append_right _ owner))))
  · refine execDelete_watched target fun read found asLoad => infers asLoad fun name => ?_
    exact Stmt.stored_of_targetRead (mem_append_right _ member) found
  · -- All names of a module are imported into a spare frame only.
    subst same
    have all : Stmt.importsAll (.importFrom mark module names level) = true := by
      simpa [Stmt.importsAll] using star
    exact fun module => Stmt.importAll_watched (own.stars all) mark.position module
  · exact orderly_of_frames fun _ => rfl
  · -- The body of a class runs in a frame that is new, hence spare, and everything fits there; only
    -- the name of the class is stored through the frame around it.
    have known : definition.name ∈ stmt.boundNames := by
      subst same
      cases definition
      exact mem_cons_self
    have frees := own.names definition.name (mem_append_left _ known)
    refine orderly_addFrame fun now id added => ?_
    have stored : Stores walker.frame definition.name := stores_of_lets (.inl (frees.grows added.grown))
    have spare : Watch.Spare now.frames id := added.spare (by simp) fun name sent =>
      classes name (same ▸ Stmt.classSent_of_sent sent)
    have run : Orderly (execBody { walker with
        frame := id, cls := some cls, classes := walker.classes ++ [cls] } definition.body) := by
      refine execBody_orderly (fun part member => ?_) fun _ _ => inferInstance
      have inner : part ∈ stmt.inner := same ▸ member
      have smaller := Stmt.sizeOf_lt_of_mem_inner inner
      refine exec_watched part _ (fun _ _ => Stmt.fits_of_spare spare _) fun name sent => ?_
      exact classes name (Stmt.classSent_of_inner (by simp [same]) inner sent)
    infer_instance
  · -- The blocks of a statement run in its own frame.
    have smaller := Stmt.sizeOf_lt_of_mem_inner (Stmt.mem_inner_of_nested member)
    refine exec_watched part walker (fun below runs => ?_) fun name sent => ?_
    · exact fits below (Stmt.mem_running_of_nested member runs)
    · exact classes name (Stmt.classSent_of_nested member sent)
termination_by sizeOf stmt

theorem Walker.execBody_watched {body : List Stmt} [since : Since] {walker : Walker}
    [walker.engine.Watched] (fits : ∀ part ∈ body.flatMap Stmt.running, part.Fits walker.frame)
    (classes : ∀ name ∈ body.flatMap Stmt.classSent, Watch.Admits name) :
    Orderly (walker.execBody body) :=
  execBody_orderly (fun stmt member => exec_watched stmt walker
    (fun part runs => fits part (mem_flatMap.mpr ⟨stmt, member, runs⟩))
    fun name sent => classes name (mem_flatMap.mpr ⟨stmt, member, sent⟩))
    fun _ _ => inferInstance

theorem FuncInfo.bindParams_watched [since : Since] {frame : Nat}
    (spare : Watch.Spare since.frames frame) (info : FuncInfo) (isFirst : Bool)
    (params : List Formal) : Orderly (info.bindParams frame isFirst params) := by
  induction params generalizing isFirst with
  | nil =>
    unfold bindParams
    infer_instance
  | cons param =>
    have stored : Stores frame param.name := stores_of_lets (.inl (.inr spare))
    have declared := declare_watched spare param.name
    unfold bindParams
    infer_instance

namespace Engine

variable [since : Since] {engine : Engine} [engine.Watched]

theorem runFunction_watched (admits : ∀ name, Watch.Admits name) (info : FuncInfo) :
    Orderly (engine.runFunction info) := by
  refine orderly_addFrame fun now id added => ?_
  have spare : Watch.Spare now.frames id := added.spare (by simp) fun name _ => admits name
  have bound := info.bindParams_watched spare true info.signature.params
  have run : Orderly (Walker.execBody
      { engine, frame := id, function := info, classes := info.classes } info.definition.body) :=
    Walker.execBody_watched (fun part _ => Stmt.fits_of_spare spare part) fun name _ => admits name
  infer_instance

theorem inferReturn_watched (admits : ∀ name, Watch.Admits name) (number : Nat) :
    Orderly (engine.inferReturn number) := by
  refine orderly_get fun session => ?_
  split
  · infer_instance
  · infer_instance
  · rename_i info _ _
    have run : Orderly (engine.runFunction info) := runFunction_watched admits info
    infer_instance

end Engine

namespace Engine

theorem ofBody_watched {body : Nat → Infer Ty}
    (inner : ∀ [Since] (number : Nat), Orderly (body number)) : (ofBody body).Watched :=
  ⟨⟨inner, Session.world_reliable⟩⟩

theorem within_watched (admits : ∀ name, Watch.Admits name) (depth : Nat) : (within depth).Watched := by
  induction depth with
  | zero =>
    exact ofBody_watched fun _ => inferInstance
  | succ =>
    exact ofBody_watched fun number => inferReturn_watched admits number

end Engine

theorem Walker.execBody_holds {session : Session} {walker : Walker} [walker.engine.Watched]
    {body : List Stmt} (present : Watch.home < session.frames.all.size)
    (few : ∀ stmt ∈ body.flatMap Stmt.running, stmt.importsAll = false)
    (known : ∀ name ∈ Stmt.boundNamesAll body ++ Stmt.overlookedAll body, Watch.known name)
    (classes : ∀ name ∈ body.flatMap Stmt.classSent, Watch.Admits name)
    (holds : Watch.Holds session.frames) :
    Watch.Holds ((walker.execBody body).run.run session).2.frames := by
  let since : Since := ⟨session.frames⟩
  have fits (part : Stmt) (runs : part ∈ body.flatMap Stmt.running) : part.Fits walker.frame := by
    refine ⟨fun name stored => .inl (known name ?_), fun all => ?_⟩
    · refine (mem_append.mp stored).elim (fun bound => mem_append_left _ ?_)
        fun missed => mem_append_right _ (mem_flatMap.mpr ⟨part, runs, missed⟩)
      obtain ⟨stmt, listed, within⟩ := mem_flatMap.mp runs
      rw [Stmt.boundNamesAll_eq]
      exact mem_flatMap.mpr ⟨stmt, listed, Stmt.boundNames_of_running within bound⟩
    · rw [few part runs] at all
      cases all
  have change : Watch.Step session.frames ((walker.execBody body).run.run session).2.frames :=
    Tracked.changes_of_orderly (execBody_watched fits classes) ⟨present, .refl _⟩
  exact (change present).2 holds

end Watching

namespace Watch

/-- A watch on a frame to which other frames may send any name. -/
@[reducible]
def ofSenders (home : Nat) (known : String → Prop) : Watch where
  home
  known
  sent frames name := ∃ other, other ≠ home ∧ (frames.frame other).Sends name
  grows := by
    rintro before after name grown ⟨other, away, sends⟩
    refine ⟨other, away, ?_⟩
    by_cases present : other < before.all.size
    · exact (grown.frame other present).sends.mpr sends
    · rw [frame_of_size_le (by omega)] at sends
      simp [Frame.Sends] at sends

/-- A watch on a frame to which other frames send given names only. -/
@[reducible]
def ofNames (home : Nat) (known sent : String → Prop) : Watch where
  home
  known
  sent _ := sent
  grows _ := id

end Watch

/-- A way to run the bodies of functions that makes nothing local to a frame. -/
def Quiet (home : Nat) (run : Nat → Infer Ty) : Prop :=
  ∀ (number : Nat) (session : Session), session.frames.Grows ((run number).run.run session).2.frames ∧
    ∀ name, (((run number).run.run session).2.frames.frame home).declares name = true →
      (session.frames.frame home).declares name = true

theorem Quiet.watched [Watch] {run : Nat → Infer Ty} (quiet : Quiet Watch.home run)
    (lasts : ∀ {before after : Frames} {name : String}, Watch.sent before name → Watch.sent after name) :
    (Engine.ofBody run).Watched := by
  refine Engine.ofBody_watched fun number => Tracked.orderly_of_changes fun session _ _ => ?_
  obtain ⟨grown, nothing⟩ := quiet number session
  exact ⟨grown, fun holds name declared =>
    (holds name (nothing name declared)).imp_right lasts⟩

namespace Session

/-- Hoisting is complete but for the names that it overlooks. When code that does not import all
names of a module has run in a frame, the frame declares no name that it did not declare after
hoisting, other than those that hoisting overlooks and those that other frames send elsewhere. Of
the other frames only those of class bodies in the code matter, if what the bodies of functions do
is not looked at: then statements that run in a frame which declares their names make no other name
local to it than these. -/
theorem declares_hoisted_or_overlooked (body : List Stmt)
    (few : ∀ stmt ∈ body.flatMap Stmt.running, stmt.importsAll = false) :
    (∀ (session : Session) (home : Nat), home < session.frames.all.size →
      let after := ((exec home body).run.run session).2.frames
      ∀ name, (after.frame home).declares name = true →
        ((session.frames.frame home).extend body).declares name = true ∨ name ∈ Stmt.overlookedAll body ∨
          ∃ other, other ≠ home ∧ (after.frame other).Sends name) ∧
      ∀ (session : Session) (walker : Walker) (run : Nat → Infer Ty),
        walker.frame < session.frames.all.size → walker.engine = .ofBody run →
        Quiet walker.frame run →
        (∀ name ∈ Stmt.boundNamesAll body, (session.frames.frame walker.frame).declares name = true) →
        let after := ((walker.execBody body).run.run session).2.frames
        ∀ name, (after.frame walker.frame).declares name = true →
          (session.frames.frame walker.frame).declares name = true ∨
            name ∈ Stmt.overlookedAll body ∨ name ∈ body.flatMap Stmt.classSent := by
  constructor
  · intro session home present after
    let watch : Watch := .ofSenders home fun name =>
      ((session.frames.frame home).extend body).declares name = true ∨ name ∈ Stmt.overlookedAll body
    have admits (name : String) : Watch.Admits name := fun _ id away sends => ⟨id, away, sends⟩
    let hoisted := { session with frames := session.frames.modify home (·.extend body) }
    have watched : (hoisted.walker home).engine.Watched := Engine.within_watched admits _
    have holds : Watch.Holds after := by
      refine Walker.execBody_holds ?_ few ?_ (fun name _ => admits name) fun name declared => ?_
      · exact Frames.size_modify.symm ▸ present
      · refine forall_mem_append.mpr ⟨fun name bound => ?_, fun name missed => .inr missed⟩
        exact .inl (Frame.declares_extend bound)
      · have same : hoisted.frames.frame home = (session.frames.frame home).extend body :=
          frame_modify_self present
        exact .inl (.inl (same ▸ declared))
    intro name declared
    exact or_assoc.mp (holds name declared)
  · intro session walker run present engine quiet hoisted after
    let watch : Watch := .ofNames walker.frame (fun name =>
      (session.frames.frame walker.frame).declares name = true ∨ name ∈ Stmt.overlookedAll body)
      (· ∈ body.flatMap Stmt.classSent)
    have watched : walker.engine.Watched := engine ▸ Quiet.watched quiet id
    have holds : Watch.Holds after := by
      refine Walker.execBody_holds present few ?_ (fun name sent _ _ _ _ => sent) ?_
      · exact forall_mem_append.mpr ⟨fun name bound => .inl (hoisted name bound),
          fun name missed => .inr missed⟩
      · exact fun name declared => .inl (.inl declared)
    intro name declared
    exact or_assoc.mp (holds name declared)

/-- Code that stores names in its own frame, in that of a class and in that of a comprehension. -/
def mixedBody : List Stmt :=
  (parseModule "" "for i in [(y := 1)]:
    class C(k=(z := i)): global w w = y
[0 for t.u in C]
" 0).tree.body

/-- A session in which only the frame of a module is open. -/
def onlyModule : Session :=
  { frames := { all := #[.builtins [], .ofBody .module "__main__" [] 0] } }

theorem declares_hoisted_or_overlooked_mixed :
    let after := ((exec 1 mixedBody).run.run onlyModule).2.frames
    let hoisted := { onlyModule with frames := onlyModule.frames.modify 1 (·.extend mixedBody) }
    let walker : Walker := { engine := .ofBody fun _ => pure .any, frame := 1 }
    let own := ((walker.execBody mixedBody).run.run hoisted).2.frames
    (∀ stmt ∈ mixedBody.flatMap Stmt.running, stmt.importsAll = false) ∧
      (∀ name, (after.frame 1).declares name = true →
        ((onlyModule.frames.frame 1).extend mixedBody).declares name = true ∨
          name ∈ Stmt.overlookedAll mixedBody ∨
          ∃ other, other ≠ 1 ∧ (after.frame other).Sends name) ∧
      ∀ name, (own.frame 1).declares name = true → (hoisted.frames.frame 1).declares name = true ∨
          name ∈ Stmt.overlookedAll mixedBody ∨ name ∈ mixedBody.flatMap Stmt.classSent := by
  have few : ∀ stmt ∈ mixedBody.flatMap Stmt.running, stmt.importsAll = false := by
    decide +kernel
  have quiet : Quiet 1 fun _ => pure .any := fun _ _ => ⟨.refl _, fun _ => id⟩
  refine ⟨few, (declares_hoisted_or_overlooked mixedBody few).1 onlyModule 1 (by decide),
    (declares_hoisted_or_overlooked mixedBody few).2 _
      { engine := .ofBody fun _ => pure .any, frame := 1 } _ (by decide) rfl quiet ?_⟩
  exact fun name bound => Frame.declares_extend bound

/-- Hoisting is not complete: it misses the name that the default of a parameter binds. -/
theorem default_binds_unhoisted_name :
    let body := (parseModule "" "def f(a=(x := 1)):\n    pass\n" 0).tree.body
    let after := ((exec 1 body).run.run onlyModule).2.frames
    (∀ stmt ∈ body.flatMap Stmt.running, stmt.importsAll = false) ∧
      ((onlyModule.frames.frame 1).extend body).declares "x" = false ∧
      (after.frame 1).declares "x" = true := by
  decide +kernel

end Session

end Stubwise
