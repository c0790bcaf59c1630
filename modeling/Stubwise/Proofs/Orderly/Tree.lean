import Stubwise.Proofs.Orderly.Place
import Stubwise.Proofs.Orderly.Work

/-!
Proper trees. An expression is proper if it is read where it stands, and a statement if all in it
stands in the contexts that the places ask for.
-/

namespace Stubwise

open List Parameters

variable {context : Context}

section Trees

instance : Propriety Expr := ⟨Expr.Stands .load⟩

instance : Propriety DictItem := ⟨fun item => proper item.expressions⟩

instance : Propriety Comparison := ⟨fun comparison => proper comparison.operand⟩

instance : Propriety NamedArg := ⟨fun arg => proper arg.value⟩

instance : Propriety Comprehension := ⟨fun clause => ∀ place ∈ clause.places, place.2.Stands place.1⟩

instance : Propriety Param := ⟨fun param => proper param.hint⟩

instance : Propriety Parameters :=
  ⟨fun params => proper params.posOnly ∧ proper params.args ∧ proper params.vararg ∧
    proper params.kwOnly ∧ proper params.kwarg ∧ proper params.defaults ∧ proper params.kwDefaults⟩

instance : Propriety WithItem := ⟨fun item => ∀ place ∈ item.places, place.2.Stands place.1⟩

instance : Propriety Stmt := ⟨Stmt.Stands⟩

instance : Propriety Handler := ⟨fun handler => proper handler.type ∧ proper handler.body⟩

instance : Propriety Module := ⟨fun module => proper module.body⟩

end Trees

section Parts

instance (key : Option Expr) (value : Expr) [Proper key] [Proper value] :
    Proper ({ key, value } : DictItem) :=
  ⟨(inferInstance : Proper (key.toList ++ [value])).holds⟩

instance (item : DictItem) [known : Proper item] : Proper item.expressions := ⟨known.holds⟩

instance (op : CompareOp) (operand : Expr) [known : Proper operand] :
    Proper ({ op, operand } : Comparison) :=
  ⟨known.holds⟩

instance (comparison : Comparison) [known : Proper comparison] : Proper comparison.operand := ⟨known.holds⟩

instance (mark : Mark) (name : String) (value : Expr) [known : Proper value] :
    Proper ({ mark, name, value } : NamedArg) :=
  ⟨known.holds⟩

instance (arg : NamedArg) [known : Proper arg] : Proper arg.value := ⟨known.holds⟩

instance (mark : Mark) (name : String) (hint : Option Expr) [known : Proper hint] :
    Proper ({ mark, name, hint } : Param) :=
  ⟨known.holds⟩

instance (param : Param) [known : Proper param] : Proper param.hint := ⟨known.holds⟩

instance (posOnly args kwOnly : List Param) (vararg kwarg : Option Param) (defaults : List Expr)
    (kwDefaults : List (Option Expr)) [first : Proper posOnly] [second : Proper args]
    [third : Proper vararg] [fourth : Proper kwOnly] [fifth : Proper kwarg]
    [sixth : Proper defaults] [seventh : Proper kwDefaults] :
    Proper ({ posOnly, args, vararg, kwOnly, kwarg, defaults, kwDefaults } : Parameters) :=
  ⟨first.holds, second.holds, third.holds, fourth.holds, fifth.holds, sixth.holds, seventh.holds⟩

section

variable (params : Parameters) [known : Proper params]

instance : Proper params.posOnly := ⟨known.holds.1⟩
instance : Proper params.args := ⟨known.holds.2.1⟩
instance : Proper params.vararg := ⟨known.holds.2.2.1⟩
instance : Proper params.kwOnly := ⟨known.holds.2.2.2.1⟩
instance : Proper params.kwarg := ⟨known.holds.2.2.2.2.1⟩
instance : Proper params.defaults := ⟨known.holds.2.2.2.2.2.1⟩
instance : Proper params.kwDefaults := ⟨known.holds.2.2.2.2.2.2⟩

instance {α β : Type} [Propriety α] [Propriety β] (option : Option α)
    (f : α → Option β) [inner : Proper option] [each : ∀ a : { a : α // proper a }, Proper (f a)] :
    Proper (option.bind f) where
  holds b found := by
    obtain ⟨a, held, given⟩ := Option.bind_eq_some_iff.mp found
    exact (each ⟨a, inner.holds a held⟩).holds b given

instance : Proper (params.kwDefaults.filterMap id) :=
  ⟨forall_mem_filterMap.mpr (inferInstance : Proper params.kwDefaults).holds⟩

instance : Proper params.expressions := by
  unfold expressions positional
  infer_instance

end

end Parts

section Places

/-- All that is at places stands in the contexts that they ask for. -/
class Placed (places : List (Context × Expr)) : Prop where
  stand : ∀ place ∈ places, place.2.Stands place.1

/-- A node can stand where it is. -/
class Fitting (fits : Bool) : Prop where
  fits : fits = true

instance : Fitting true := ⟨rfl⟩

instance (context : Context) : Fitting (context == context) := ⟨beq_self_eq_true context⟩

instance : Fitting (Context.load == .load && Context.load != .del) := ⟨rfl⟩

instance (target : { target : Expr // target.Stands .store ∧ target.isSingleTarget }) :
    Fitting target.val.isSingleTarget :=
  ⟨target.property.2⟩

theorem placed_cons {expr : Expr} {rest : List (Context × Expr)}
    (first : expr.Stands context) (others : Placed rest) : Placed ((context, expr) :: rest) :=
  ⟨forall_mem_cons.mpr ⟨first, others.stand⟩⟩

instance placed_nil : Placed [] := ⟨forall_mem_nil _⟩

section

variable (rest : List (Context × Expr)) [others : Placed rest]

instance (expr : Expr) [known : Proper expr] : Placed ((.load, expr) :: rest) :=
  placed_cons known.holds others

instance placed_target (target : { target : Expr // target.Stands context }) :
    Placed ((context, target.val) :: rest) :=
  placed_cons target.property others

instance placed_single (target : { target : Expr // target.Stands .store ∧ target.isSingleTarget }) :
    Placed ((.store, target.val) :: rest) :=
  placed_cons target.property.1 others

instance (places : List (Context × Expr)) [first : Placed places] : Placed (places ++ rest) :=
  ⟨forall_mem_append.mpr ⟨first.stand, others.stand⟩⟩

end

instance (exprs : List Expr) [all : Proper exprs] : Placed (exprs.map (.load, ·)) :=
  ⟨forall_mem_map.mpr all.holds⟩

instance (targets : { targets : List Expr // ∀ target ∈ targets, target.Stands context }) :
    Placed (targets.val.map (context, ·)) :=
  ⟨forall_mem_map.mpr targets.property⟩

instance (context : Context) : Placed ((none : Option Expr).toList.map (context, ·)) := placed_nil

instance (target : { target : Expr // target.Stands context }) :
    Placed ((some target.val).toList.map (context, ·)) :=
  placed_target [] target

instance (clauses : List Comprehension) [all : Proper clauses] :
    Placed (clauses.flatMap (·.places)) :=
  ⟨forall_mem_flatMap.mpr all.holds⟩

instance (items : List WithItem) [all : Proper items] : Placed (items.flatMap (·.places)) :=
  ⟨forall_mem_flatMap.mpr all.holds⟩

instance (priority := low) (clause : Comprehension) [all : Placed clause.places] : Proper clause :=
  ⟨all.stand⟩

instance (priority := low) (item : WithItem) [all : Placed item.places] : Proper item := ⟨all.stand⟩

instance (priority := low) expr_proper (expr : Expr) [own : Fitting (expr.fits .load)]
    [below : Placed expr.places] : Proper expr :=
  ⟨.intro own.fits below.stand⟩

instance (priority := low) (stmt : Stmt) [own : Fitting stmt.fits]
    [exprs : Placed stmt.places] [inner : Proper stmt.inner] : Proper stmt :=
  ⟨.intro own.fits exprs.stand inner.holds⟩

end Places

instance (mark : Mark) (type : Option Expr) (name : String) (body : List Stmt)
    [first : Proper type] [second : Proper body] :
    Proper ({ mark, type, name, body } : Handler) :=
  ⟨first.holds, second.holds⟩

instance (handler : Handler) [known : Proper handler] : Proper handler.type := ⟨known.holds.1⟩

instance (handler : Handler) [known : Proper handler] : Proper handler.body := ⟨known.holds.2⟩

end Stubwise
