import Stubwise.Proofs.Orderly.Fault
import Stubwise.Proofs.Orderly.Tree
import Stubwise.Stub.Value

namespace Stubwise

open List

variable [Standard]

namespace Hint

instance (position : Position) (message : String) [refuses : Refuses message] :
    Proper (refused position message) := by
  have usual : Code.unsupported.text ≠ Code.contextMisuse.text := by decide
  have refusal : Proper ({ code := .unsupported, message, position } : Diagnostic) :=
    ⟨Standard.usual usual (.inr (.inr ⟨rfl, refuses⟩))⟩
  unfold refused
  infer_instance

instance (expr : Expr) : Orderly (literalValue expr) := by
  unfold literalValue
  split
  · infer_instance
  · split <;> infer_instance
  · infer_instance

section

variable {m : Type → Type} [Monad m] [LawfulMonad m] [MonadExceptOf Stop m] [Accountable m]
  [Catching m] {args : List (m Ty)}

omit [Standard] [MonadExceptOf Stop m] [Catching m] in
theorem inOrder_orderly (each : ∀ arg ∈ args, Orderly arg) : Orderly (inOrder args) :=
  ⟨yields_mapM fun arg member => (each arg member).yields⟩

instance (args : List Ty) : Orderly (onlyArg args : m Ty) := by
  unfold onlyArg
  split <;> infer_instance

omit [Standard] [MonadExceptOf Stop m] [Catching m] in
theorem tupleType_orderly {written : List Expr}
    (each : ∀ arg ∈ args, Orderly arg) : Orderly (tupleType written args) := by
  have all := inOrder_orderly each
  unfold tupleType
  split
  · rename_i element _
    have first : Orderly element := each element mem_cons_self
    infer_instance
  · infer_instance
  · infer_instance

theorem subscriptType_orderly (position : Position) (head : Ty) (written : List Expr)
    (each : ∀ arg ∈ args, Orderly arg) :
    Orderly (subscriptType position head written args) := by
  have all := inOrder_orderly each
  have pairs : Orderly (tupleType written args) := tupleType_orderly each
  unfold subscriptType
  split
  · split
    · infer_instance
    · rename_i stop failed
      have stop_proper : Proper stop := Orderly.proper_error failed
      infer_instance
  all_goals try infer_instance
  -- What is left are the heads that take arguments of their own.
  all_goals
    split
    · split
      · infer_instance
      · refine orderly_bind fun args _ => ?_
        split <;> infer_instance
    · infer_instance

section

variable {named : String → m Ty} [∀ name, Orderly (named name)]

section

variable {quoted : Mark → String → m Ty} [∀ mark text, Orderly (quoted mark text)]

set_option linter.unusedSectionVars false in
mutual

theorem build_orderly (expr : Expr) : Orderly (build named quoted expr) := by
  unfold build
  split
  · infer_instance
  · infer_instance
  · infer_instance
  · infer_instance
  · infer_instance
  · rename_i left right
    have first := build_orderly left
    have second := build_orderly right
    infer_instance
  · rename_i mark value _ elements _ _
    have head := build_orderly value
    refine orderly_bind fun t _ => ?_
    exact subscriptType_orderly _ _ _ (buildEach_orderly elements)
  · rename_i mark value index _ _
    have head := build_orderly value
    have only := build_orderly index
    refine orderly_bind fun t _ => ?_
    exact subscriptType_orderly _ _ _ (forall_mem_singleton.mpr inferInstance)
  · infer_instance
  · infer_instance

theorem buildEach_orderly (exprs : List Expr) : ∀ arg ∈ buildEach named quoted exprs, Orderly arg := by
  unfold buildEach
  split
  · exact forall_mem_nil _
  · rename_i expr rest
    have first := build_orderly expr
    exact forall_mem_cons.mpr ⟨inferInstance, buildEach_orderly rest⟩

end

instance (expr : Expr) : Orderly (build named quoted expr) := build_orderly expr

end

instance (depth : Nat) (expr : Expr) : Orderly (typeWithin named depth expr) := by
  induction depth generalizing expr with
  | zero =>
    unfold typeWithin
    infer_instance
  | succ depth =>
    unfold typeWithin
    have quoted (mark : Mark) (text : String) : Orderly (do
        let parsed := parseExpression text
        match parsed.faults, parsed.tree with
        | [], some inner => typeWithin named depth inner
        | _, _ => throw (refused mark.position
            s!"invalid forward reference {Text.quote text}") : m Ty) := by
      dsimp only
      split <;> infer_instance
    infer_instance

instance (expr : Expr) : Orderly (Hint.type named expr) := by
  unfold Hint.type
  infer_instance

instance (hint : Option Expr) : Orderly (typeOrAny named hint) := by
  unfold typeOrAny
  cases hint <;> infer_instance

instance (params : List Slot) : Orderly (formals named params) := by
  induction params <;> unfold formals <;> infer_instance

end

end

end Hint

namespace StubTree

variable (tree : StubTree)

instance module?_orderly (name : String) : Orderly (tree.module? name) := by
  unfold module?
  dsimp only
  split
  · infer_instance
  · infer_instance
  · split <;> infer_instance

section Modules

variable {m : Type → Type} [Monad m] [MonadExceptOf Stop m] [Accountable m] [Catching m]
  {find : String → m (Option StubModule)} [∀ name, Orderly (find name)]

instance (rest segments : List String) : Orderly (longestModuleBy find rest segments) := by
  induction segments generalizing rest <;> unfold longestModuleBy <;> infer_instance

instance (steps : Nat) (qualName : String) : Orderly (resolveBy find steps qualName) := by
  induction steps generalizing qualName with
  | zero =>
    unfold resolveBy
    infer_instance
  | succ =>
    refine orderly_bind fun found _ => ?_
    split
    · infer_instance
    · infer_instance
    · split
      · infer_instance
      · split <;> infer_instance

end Modules

end StubTree

instance {m : Type → Type} [Monad m] [Accountable m]
    {resolve : String → m (Except Stop Decl)} [∀ name, Orderly (resolve name)] (start : String)
    (steps : Nat) (seen : List String) (name : String) :
    Orderly (followWithin resolve start steps seen name) := by
  induction steps generalizing seen name with
  | zero =>
    unfold followWithin
    infer_instance
  | succ =>
    unfold followWithin
    split
    · infer_instance
    · refine orderly_bind fun answer _ => ?_
      split <;> infer_instance

namespace Stubs

instance (steps : Nat) (qualName : String) (trees : List StubTree) :
    Orderly (resolveIn steps qualName trees) := by
  induction trees with
  | nil =>
    unfold resolveIn
    infer_instance
  | cons tree rest ih =>
    unfold resolveIn
    split
    · infer_instance
    · rename_i stop failed
      have stop_proper : Proper stop := Orderly.proper_error failed
      infer_instance

variable (stubs : Stubs)

instance resolve_orderly (qualName : String) : Orderly (stubs.resolve qualName) := by
  unfold resolve
  infer_instance

instance (qualName : String) : Orderly (stubs.follow qualName) where
  yields := by
    have known (name : String) : Orderly (pure (stubs.resolve name) : Id (Except Stop Decl)) :=
      ⟨(resolve_orderly stubs name).yields⟩
    have followed : Orderly (followAliases (m := Id) (fun name => pure (stubs.resolve name)) qualName) := by
      unfold followAliases
      infer_instance
    exact followed.yields

instance {named : String → Except Stop Ty} [∀ name, Orderly (named name)]
    (decl : TypeVarDecl) : Orderly (typeVar named decl) := by
  unfold typeVar
  split <;> infer_instance

instance (depth : Nat) (qualName : String) : Orderly (stubs.typeNamedWithin depth qualName) := by
  induction depth generalizing qualName with
  | zero =>
    unfold typeNamedWithin
    infer_instance
  | succ =>
    refine orderly_bind fun decl _ => ?_
    split
    · infer_instance
    · infer_instance
    · split
      · infer_instance
      · split <;> infer_instance
    · infer_instance

instance (decl : Decl) : Orderly (stubs.plainValue decl) := by
  unfold plainValue
  split
  · infer_instance
  · infer_instance
  · infer_instance
  · infer_instance
  · infer_instance
  · split
    · infer_instance
    · split <;> infer_instance

instance (decl : Decl) : Orderly (stubs.value decl) := by
  unfold value
  split <;> infer_instance

instance (ref : ClassRef) : Orderly (stubs.classNamed ref) := by
  refine orderly_bind fun decl _ => ?_
  split <;> infer_instance

instance member_orderly (decl : ClassDecl) (name : String) : Orderly (stubs.member decl name) := by
  unfold member
  split <;> infer_instance

end Stubs

end Stubwise
