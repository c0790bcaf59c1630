import Stubwise.Infer.Expr
import Stubwise.Infer.Import
import Stubwise.Proofs.Orderly.Call

/-!
Expressions that stand in the contexts of their places are inferred, and assigned to, in an orderly
way.
-/

namespace Stubwise

open List

set_option synthInstance.maxSize 4000
theorem Expr.targetNamesAll_eq (targets : List Expr) :
    targetNamesAll targets = targets.flatMap targetNames := by
  induction targets with
  | nil => rfl
  | cons _ _ ih => rw [targetNamesAll, ih, flatMap_cons]

section Accounts

variable [Standard] [Accountable Infer] [Bookkeeping]

instance placingAt_orderly {α : Type} [Propriety α] (position : Position) (run : Infer α)
    [Proper position] [Orderly run] : Orderly (placingAt position run) := by
  unfold placingAt
  infer_instance

/-- A name that is stored in an orderly way through a frame. -/
class Stores (frame : Nat) (name : String) : Prop where
  store : ∀ t, Orderly (Session.storeName frame name t)

attribute [instance] Stores.store

namespace Walker

instance {engine : Engine} [engine.Reliable] (t : Ty) (attrs : List String) :
    Orderly (attributes engine t attrs) := by
  induction attrs generalizing t <;> unfold attributes <;> infer_instance

variable {walker : Walker} [reliable : walker.engine.Reliable]

instance within_reliable (frame : Nat) : (walker.within frame).engine.Reliable := reliable

instance (dotted : String) : Orderly (walker.loadDotted dotted) := by
  unfold loadDotted
  split <;> infer_instance

instance typeNamed_orderly (dotted : String) : Orderly (walker.typeNamed dotted) := by
  unfold typeNamed
  split
  · infer_instance
  · refine orderly_bind fun value _ => ?_
    split <;> infer_instance

omit reliable in
theorem shown_orderly (asLoad : Bool) (expr : Expr) [Proper expr.position]
    {run : Walker → Infer Ty} (inner : ∀ depth, Orderly (run { walker with depth })) :
    Orderly (walker.shown asLoad expr run) := by
  unfold shown
  infer_instance

set_option linter.unusedSectionVars false in
mutual

theorem bindAny_orderly {target : Expr} (stores : ∀ name ∈ target.targetNames, Stores walker.frame name) :
    Orderly (walker.bindAny target) := by
  unfold bindAny
  split
  · rename_i id _
    have stored : Stores walker.frame id := stores id (by simp [Expr.targetNames])
    infer_instance
  · exact bindAnyAll_orderly stores
  · exact bindAnyAll_orderly stores
  · exact bindAny_orderly stores
  · infer_instance

theorem bindAnyAll_orderly {targets : List Expr}
    (stores : ∀ name ∈ Expr.targetNamesAll targets, Stores walker.frame name) :
    Orderly (walker.bindAnyAll targets) := by
  unfold bindAnyAll
  split
  · infer_instance
  · rename_i target rest
    rw [Expr.targetNamesAll, forall_mem_append] at stores
    have first := bindAny_orderly stores.1
    have others := bindAnyAll_orderly stores.2
    infer_instance

end

instance (keywords : List NamedArg) : Orderly (walker.boundOf keywords) := by
  induction keywords <;> unfold boundOf <;> infer_instance

instance (mark : Mark) (args : List Expr) (keywords : List NamedArg)
    [Proper mark.position] : Orderly (walker.typeVarCall mark args keywords) := by
  unfold typeVarCall
  split <;> infer_instance

instance (arm : Ty) : Orderly (unpackArm walker.engine arm) := by
  unfold unpackArm
  split <;> infer_instance

instance (t : Ty) : Orderly (unpackElement walker.engine t) := by
  unfold unpackElement
  split <;> infer_instance

omit reliable in
theorem assignMember_orderly (base : Ty) {owner : Expr} (attr : String) (t : Ty)
    (stores : ∀ mark id context, owner = .name mark id context → Stores walker.frame id) :
    Orderly (walker.assignMember base owner attr t) := by
  unfold assignMember
  split
  · infer_instance
  · rename_i mark id context _
    have stored : Stores walker.frame id := stores mark id context rfl
    split
    · infer_instance
    · refine orderly_get fun session => ?_
      split
      · refine orderly_bind fun value _ => ?_
        split <;> infer_instance
      · infer_instance
  · infer_instance

instance (t : Ty) (targets : List Expr) {eachPart : List Ty → Infer Unit}
    {all : Ty → Infer Unit} [∀ parts, Orderly (eachPart parts)] [∀ element, Orderly (all element)]
    [Orderly (walker.bindAnyAll targets)] :
    Orderly (walker.unpack t targets eachPart all) := by
  unfold unpack
  split <;> infer_instance

instance (whole written : Expr) (base : Ty) (index : Infer Ty)
    [Proper whole.position] [Orderly index] : Orderly (walker.subscript whole written base index) := by
  unfold subscript
  split
  · infer_instance
  · infer_instance
  · split
    · infer_instance
    · split <;> infer_instance
  · infer_instance

section Lists

variable {walker : Walker} [walker.engine.Reliable]

omit [Standard] [Bookkeeping] [walker.engine.Reliable] in
theorem inferOption_orderly {option : Option Expr}
    (each : ∀ expr ∈ option, Orderly (walker.infer false expr)) :
    Orderly (walker.inferOption option) := by
  unfold inferOption
  cases option with
  | none => infer_instance
  | some expr =>
    have given := each expr rfl
    infer_instance

omit [Standard] [Bookkeeping] [walker.engine.Reliable] in
theorem inferEach_orderly {exprs : List Expr} (each : ∀ expr ∈ exprs, Orderly (walker.infer false expr)) :
    Orderly (walker.inferEach exprs) := by
  induction exprs with
  | nil =>
    unfold inferEach
    infer_instance
  | cons _ _ ih =>
    obtain ⟨first, others⟩ := forall_mem_cons.mp each
    have later := ih others
    unfold inferEach
    infer_instance

omit [Standard] [Bookkeeping] [walker.engine.Reliable] in
theorem inferItems_orderly {items : List DictItem}
    (each : ∀ expr ∈ items.flatMap (·.expressions), Orderly (walker.infer false expr)) :
    Orderly (walker.inferItems items) := by
  induction items with
  | nil =>
    unfold inferItems
    infer_instance
  | cons item _ ih =>
    obtain ⟨key, value⟩ := item
    rw [flatMap_cons, forall_mem_append] at each
    obtain ⟨given, last⟩ := forall_mem_append.mp each.1
    have first : Orderly (walker.inferOption key) :=
      inferOption_orderly fun expr found => given expr (Option.mem_toList.mpr found)
    have second := last value mem_cons_self
    have later := ih each.2
    unfold inferItems
    infer_instance

theorem inferComparisons_orderly {comparisons : List Comparison} (left : Ty)
    (each : ∀ expr ∈ comparisons.map (·.operand), Orderly (walker.infer false expr)) :
    Orderly (walker.inferComparisons left comparisons) := by
  induction comparisons generalizing left with
  | nil =>
    unfold inferComparisons
    infer_instance
  | cons comparison _ ih =>
    obtain ⟨op, operand⟩ := comparison
    obtain ⟨first, others⟩ := forall_mem_cons.mp each
    have later (right : Ty) := ih right others
    unfold inferComparisons
    infer_instance

omit [Standard] [Bookkeeping] [walker.engine.Reliable] in
theorem inferKeywords_orderly {keywords : List NamedArg}
    (each : ∀ expr ∈ keywords.map (·.value), Orderly (walker.infer false expr)) :
    Orderly (walker.inferKeywords keywords) := by
  induction keywords with
  | nil =>
    unfold inferKeywords
    infer_instance
  | cons keyword _ ih =>
    obtain ⟨mark, name, value⟩ := keyword
    obtain ⟨first, others⟩ := forall_mem_cons.mp each
    have later := ih others
    unfold inferKeywords
    infer_instance

omit [Standard] [Bookkeeping] [walker.engine.Reliable] in
theorem assignParts_orderly (parts : List Ty) {targets : List Expr}
    (each : ∀ target ∈ targets, ∀ t, Orderly (walker.assign t target)) :
    Orderly (walker.assignParts parts targets) := by
  induction targets generalizing parts with
  | nil => cases parts <;> unfold assignParts <;> infer_instance
  | cons _ _ ih =>
    obtain ⟨first, others⟩ := forall_mem_cons.mp each
    have later (parts : List Ty) := ih parts others
    cases parts <;> unfold assignParts <;> infer_instance

omit [Standard] [Bookkeeping] [walker.engine.Reliable] in
theorem assignAll_orderly (t : Ty) {targets : List Expr}
    (each : ∀ target ∈ targets, ∀ t, Orderly (walker.assign t target)) :
    Orderly (walker.assignAll t targets) := by
  induction targets with
  | nil =>
    unfold assignAll
    infer_instance
  | cons _ _ ih =>
    obtain ⟨first, others⟩ := forall_mem_cons.mp each
    have later := ih others
    unfold assignAll
    infer_instance

/-- The clauses of a comprehension. Only what the first of them iterates over is inferred by the
walker outside. -/
theorem runClauses_orderly {source : Walker} [source.engine.Reliable]
    {clauses : List Comprehension} (places : ∀ clause ∈ clauses, Proper clause.iter.position)
    (outside : ∀ clause ∈ clauses, Orderly (source.infer false clause.iter))
    (inside : ∀ clause ∈ clauses, Orderly (walker.infer false clause.iter) ∧
      (∀ t, Orderly (walker.assign t clause.target)) ∧
      ∀ condition ∈ clause.conditions, Orderly (walker.infer false condition)) :
    Orderly (source.runClauses walker clauses) := by
  induction clauses generalizing source with
  | nil =>
    unfold runClauses
    infer_instance
  | cons clause rest ih =>
    obtain ⟨mark, target, iter, conditions, isAsync⟩ := clause
    obtain ⟨first, others⟩ := forall_mem_cons.mp inside
    obtain ⟨place, places⟩ := forall_mem_cons.mp places
    have iterated : Orderly (source.infer false iter) := outside _ mem_cons_self
    have assigned : ∀ t, Orderly (walker.assign t target) := first.2.1
    have tested : Orderly (walker.inferEach conditions) := inferEach_orderly first.2.2
    have later : Orderly (walker.runClauses walker rest) :=
      ih places (fun clause member => (others clause member).1) others
    unfold runClauses
    infer_instance

end Lists

end Walker

namespace Expr

def isComprehension : Expr → Bool
  | listComp .. | setComp .. | generator .. | dictComp .. => true
  | _ => false

/-- Whether inferring the expression reads it, as its context allows. -/
def isRead (asLoad : Bool) : Expr → Bool
  | name _ _ context | access _ _ _ context | subscript _ _ _ context =>
    asLoad || context == .load
  | _ => true

def operands : Expr → List Expr
  | named _ _ _ value => [value]
  | lambda .. | yield .. | await .. => []
  | expr => expr.children

end Expr

/-- An expression is inferred in an orderly way where its operands are, at every depth. -/
theorem Walker.infer_orderly {walker : Walker} [reliable : walker.engine.Reliable] {expr : Expr}
    [here : Proper expr.position] {asLoad : Bool} (plain : expr.isComprehension = false)
    (reads : expr.isRead asLoad = true ∨ ∀ position message, Proper (misuse position message))
    (stores : ∀ mark target id value, expr = .named mark target id value → Stores walker.frame id)
    (parts : ∀ depth, ∀ part ∈ expr.operands, Orderly ({ walker with depth }.infer false part)) :
    Orderly (walker.infer asLoad expr) := by
  unfold infer
  refine shown_orderly asLoad expr fun depth => ?_
  have parts := parts depth
  have inner_reliable : ({ walker with depth } : Walker).engine.Reliable := reliable
  have inner_stores : ∀ mark target id value, expr = .named mark target id value →
      Stores ({ walker with depth } : Walker).frame id := stores
  generalize ({ walker with depth } : Walker) = inner at parts inner_reliable inner_stores ⊢
  have operand (part : Expr) (listed : part ∈ expr.operands := by simp [Expr.operands, Expr.children]) :=
    parts part listed
  have guarded {condition : Prop} [Decidable condition] {run : Infer Ty} [Orderly run]
      (position : Position) (message : String)
      (reads : condition ∨ ∀ position message, Proper (misuse position message)) :
      Orderly (if condition then run else throw (misuse position message)) := by
    split
    · infer_instance
    · rename_i unread
      have allowed := (reads.resolve_left unread) position message
      infer_instance
  cases expr with
  | name => exact guarded _ _ reads
  | constant => infer_instance
  | formatted mark values | list mark values context | tuple mark values context
  | set mark values | boolean mark op values =>
    have all : Orderly (inner.inferEach values) := inferEach_orderly parts
    infer_instance
  | dict _ items =>
    have all : Orderly (inner.inferItems items) := inferItems_orderly parts
    infer_instance
  | listComp | setComp | generator | dictComp => cases plain
  | starred mark value context | unary mark op value =>
    have read := operand value
    infer_instance
  | named mark target id value =>
    have read := operand value
    have stored := inner_stores mark target id value rfl
    infer_instance
  | binary _ _ left right =>
    have first := operand left
    have second := operand right
    infer_instance
  | compare _ _ comparisons =>
    obtain ⟨first, others⟩ := forall_mem_cons.mp parts
    have all (t : Ty) : Orderly (inner.inferComparisons t comparisons) := inferComparisons_orderly t others
    infer_instance
  | conditional _ test body orElse =>
    have first := operand test
    have second := operand body
    have third := operand orElse
    infer_instance
  | call mark callee args keywords =>
    have place : Proper mark.position := here
    have first := operand callee
    have positional : Orderly (inner.inferEach args) := inferEach_orderly fun arg member =>
        parts arg (by simp [Expr.operands, Expr.children, member])
    have named : Orderly (inner.inferKeywords keywords) :=
      inferKeywords_orderly (forall_mem_append.mp parts).2
    infer_instance
  | access _ value =>
    have read := operand value
    exact guarded _ _ reads
  | subscript _ value index =>
    have first := operand value
    have second := operand index
    exact guarded _ _ reads
  | slice _ lower upper step =>
    have each (bound : Option Expr) (written : bound = lower ∨ bound = upper ∨ bound = step) :
        Orderly (inner.inferOption bound) :=
      inferOption_orderly fun expr found => parts expr (by
        rcases written with rfl | rfl | rfl <;> simp_all [Expr.operands, Expr.children])
    have first := each lower (.inl rfl)
    have second := each upper (.inr (.inl rfl))
    have third := each step (.inr (.inr rfl))
    infer_instance
  | lambda mark | yield mark | await mark =>
    have place : Proper mark.position := here
    infer_instance

end Accounts

section Standards

variable [Standard]

instance (frame : Nat) (name : String) : Stores frame name := ⟨fun _ => inferInstance⟩

/-- Expressions that are inferred in an orderly way. -/
class Expr.Readable (expr : Expr) : Prop where
  infer : ∀ (walker : Walker) [walker.engine.Reliable] (asLoad : Bool), Orderly (walker.infer asLoad expr)

/-- Expressions that are assigned to in an orderly way. -/
class Expr.Assignable (expr : Expr) : Prop where
  assign : ∀ (walker : Walker) [walker.engine.Reliable] (t : Ty), Orderly (walker.assign t expr)

attribute [instance] Expr.Readable.infer Expr.Assignable.assign

/-- The expression can be used as its context says. How targets are deleted is left to the
statement that does so. -/
def Expr.Serves : Context → Expr → Prop
  | .load, expr => expr.Readable
  | .store, expr => expr.Assignable
  | .del, _ => True

namespace Walker

variable {walker : Walker} [walker.engine.Reliable]

instance (targets : List Expr) : Orderly (walker.bindAnyAll targets) :=
  bindAnyAll_orderly fun _ _ => inferInstance

theorem runClauses_serve {source : Walker} [source.engine.Reliable] {clauses : List Comprehension}
    (serve : ∀ place ∈ clauses.flatMap (·.places), place.2.Serves place.1)
    (near : ∀ place ∈ clauses.flatMap (·.places), place.2.Near proper) :
    Orderly (source.runClauses walker clauses) := by
  have parts (clause : Comprehension) (member : clause ∈ clauses) : clause.target.Assignable ∧
      clause.iter.Readable ∧ ∀ condition ∈ clause.conditions, condition.Readable := by
    have own (place : Context × Expr) (listed : place ∈ clause.places) : place.2.Serves place.1 :=
      serve place (mem_flatMap.mpr ⟨clause, member, listed⟩)
    obtain ⟨bound, read⟩ := forall_mem_cons.mp own
    obtain ⟨iterated, tests⟩ := forall_mem_cons.mp read
    exact ⟨bound, iterated, fun condition listed =>
      tests _ (mem_map_of_mem listed)⟩
  refine runClauses_orderly (fun clause member => ?_) (fun clause member => ?_) (fun clause member => ?_)
  · exact ⟨(near (.load, clause.iter) (mem_flatMap.mpr
      ⟨clause, member, mem_cons_of_mem _ mem_cons_self⟩)).here⟩
  · exact (parts clause member).2.1.infer source false
  · obtain ⟨bound, iterated, tests⟩ := parts clause member
    exact ⟨iterated.infer walker false, bound.assign walker, fun condition listed =>
      (tests condition listed).infer walker false⟩

end Walker

namespace Expr

variable {expr : Expr}

theorem readable_children (parts : ∀ place ∈ expr.places, place.2.Serves place.1)
    (same : expr.places = expr.children.map (.load, ·)) :
    ∀ child ∈ expr.children, child.Readable := by
  intro child member
  rw [same] at parts
  exact parts (.load, child) (mem_map_of_mem member)

omit [Standard] in
theorem operands_load (fits : expr.fits .load) (plain : expr.isComprehension = false) :
    ∀ part ∈ expr.operands, (.load, part) ∈ expr.places := by
  intro part member
  cases expr with
  | list mark elements context | tuple mark elements context | starred mark value context =>
    obtain rfl : context = .load := by simpa [Expr.fits] using fits
    exact mem_map_of_mem member
  | listComp | setComp | generator | dictComp => cases plain
  | lambda | yield | await => cases member
  | named => simpa [operands, places] using member
  | _ => exact mem_map_of_mem member

omit [Standard] in
theorem isRead_of_fits (fits : expr.fits .load) (asLoad : Bool) : expr.isRead asLoad = true := by
  cases expr <;> simp_all [Expr.fits, isRead]

theorem readable_of_places (fits : expr.fits .load) (near : expr.Near proper)
    (parts : ∀ place ∈ expr.places, place.2.Serves place.1) : expr.Readable where
  infer := by
    intro walker _ asLoad
    have here : Proper expr.position := ⟨near.here⟩
    cases form : expr.isComprehension with
    | false =>
      refine Walker.infer_orderly form (.inl (isRead_of_fits fits asLoad))
        (fun _ _ _ _ _ => inferInstance) fun depth part member => ?_
      have read : part.Readable := parts _ (operands_load fits form part member)
      exact read.infer { walker with depth } false
    | true =>
      unfold Walker.infer
      refine Walker.shown_orderly asLoad expr fun depth => ?_
      have inner_reliable : ({ walker with depth } : Walker).engine.Reliable := ‹_›
      generalize ({ walker with depth } : Walker) = inner at inner_reliable ⊢
      cases expr with
      | listComp mark element clauses | setComp mark element clauses
      | generator _ element clauses =>
        obtain ⟨first, others⟩ := forall_mem_cons.mp parts
        have element_serves : element.Readable := first
        have run (within : Walker) [within.engine.Reliable] : Orderly (inner.runClauses within clauses) :=
          Walker.runClauses_serve others fun place member =>
            near.part (mem_cons_of_mem _ member)
        infer_instance
      | dictComp _ key value clauses =>
        obtain ⟨first, others⟩ := forall_mem_cons.mp parts
        obtain ⟨second, others⟩ := forall_mem_cons.mp others
        have key_serves : key.Readable := first
        have value_serves : value.Readable := second
        have run (within : Walker) [within.engine.Reliable] : Orderly (inner.runClauses within clauses) :=
          Walker.runClauses_serve others fun place member =>
            near.part (mem_cons_of_mem _ (mem_cons_of_mem _ member))
        infer_instance
      | _ => cases form

theorem assignable_of_places (fits : expr.fits .store) (near : expr.Near proper)
    (parts : ∀ place ∈ expr.places, place.2.Serves place.1) : expr.Assignable where
  assign := by
    intro walker _ t
    have here := near.here
    unfold Walker.assign
    cases expr with
    | name => infer_instance
    | tuple mark elements context | list mark elements context =>
      obtain rfl : context = .store := by simpa [Expr.fits] using fits
      have assignable : ∀ element ∈ elements, ∀ t, Orderly (walker.assign t element) := fun element member =>
          have inner : element.Assignable := parts (.store, element) (mem_map_of_mem member)
          inner.assign walker
      have each (types : List Ty) : Orderly (walker.assignParts types elements) :=
        Walker.assignParts_orderly types assignable
      have all (t : Ty) : Orderly (walker.assignAll t elements) := Walker.assignAll_orderly t assignable
      infer_instance
    | starred _ value context =>
      obtain rfl : context = .store := by
        have own := fits
        simp only [Expr.fits, Bool.and_eq_true, beq_iff_eq] at own
        exact own.1
      have inner : value.Assignable := parts (.store, value) mem_cons_self
      infer_instance
    | access mark value attr =>
      have place : Proper mark.position := ⟨here⟩
      have read : value.Readable := readable_children parts rfl value mem_cons_self
      have member (base : Ty) : Orderly (walker.assignMember base value attr t) :=
        Walker.assignMember_orderly base attr t fun _ _ _ _ => inferInstance
      dsimp only
      split <;> infer_instance
    | subscript mark value index =>
      have place : Proper mark.position := ⟨here⟩
      have read := readable_children parts rfl
      have first : value.Readable := read value (by simp [children])
      have second : index.Readable := read index (by simp [children])
      infer_instance
    | _ => exact absurd fits (by simp [Expr.fits])

theorem Stands.serves {context : Context} (stands : expr.Stands context)
    (near : expr.Near proper) : expr.Serves context := by
  induction stands with
  | @intro context expr fits _ ih =>
    have parts := fun place member => ih place member (near.part member)
    cases context with
    | load => exact readable_of_places fits near parts
    | store => exact assignable_of_places fits near parts
    | del => trivial

instance [every : AllProper Position] [known : Proper expr] : expr.Readable :=
  known.holds.serves (.of_stands every.all known.holds)

theorem Stands.target_read (stands : expr.Stands .store) (near : expr.Near proper)
    (single : expr.isSingleTarget) (walker : Walker) [walker.engine.Reliable] :
    Orderly (walker.infer true expr) := by
  have here : Proper expr.position := ⟨near.here⟩
  have plain : expr.isComprehension = false := by
    cases expr <;> simp_all [isSingleTarget, isComprehension]
  refine Walker.infer_orderly plain (.inl ?_) (fun _ _ _ _ _ => inferInstance) fun depth part member => ?_
  · cases expr <;> simp_all [isSingleTarget, isRead]
  · have place : (.load, part) ∈ expr.places := by
      cases expr with
      | name | access | subscript => exact mem_map_of_mem member
      | _ => cases single
    have read : part.Readable := (stands.part place).serves (near.part place)
    exact read.infer { walker with depth } false

end Expr

end Standards

end Stubwise
