import Stubwise.Proofs.Orderly.Session

namespace Stubwise

set_option synthInstance.maxSize 4000

variable [Standard] [Accountable Infer] [Inferring]

class Engine.Reliable (engine : Engine) : Prop where
  body : ∀ number, Orderly (engine.body number)
  world : engine.world.Reliable

attribute [instance] Engine.Reliable.body Engine.Reliable.world

namespace Engine

variable {engine : Engine} [engine.Reliable]
  (receiver : Option Receiver) (args : List Ty) (keywords : List KeywordArg)
  (function : Func) (signature : Signature) (name : String) (value : Ty) (t : Ty) (types : List Ty)
  (op : BinaryOp) (left right : Ty)

instance (bindings : Subst) (pairs : List (Option Ty × Ty)) : Orderly (engine.unifyAll bindings pairs) := by
  induction pairs generalizing bindings with
  | nil =>
    unfold unifyAll
    infer_instance
  | cons =>
    refine orderly_pair fun failed bindings _ _ => ?_
    cases failed <;> infer_instance

instance (owner : Ty) : Orderly (engine.ownerSubst owner) := by
  unfold ownerSubst
  split <;> infer_instance

instance : Orderly (engine.returnOf signature receiver) := by
  unfold returnOf
  cases receiver <;> dsimp only <;> split <;> infer_instance

instance (bindings : Subst) : Orderly (engine.bindReceiver function signature receiver bindings) := by
  unfold bindReceiver
  split <;> infer_instance

instance (bindings : Subst) (pairs : List (Option Ty × Ty)) :
    Orderly (engine.argsFit receiver bindings pairs) := by
  induction pairs with
  | nil =>
    unfold argsFit
    infer_instance
  | cons pair =>
    obtain ⟨formal, arg⟩ := pair
    cases formal <;> unfold argsFit <;> infer_instance

instance (keywords : List String) :
    Orderly (engine.matchSignature function signature receiver args keywords) := by
  unfold matchSignature
  split
  split
  · infer_instance
  · refine orderly_pair fun failed bindings _ _ => ?_
    cases failed with
    | some => infer_instance
    | none =>
      refine orderly_pair fun failed bindings _ _ => ?_
      cases failed <;> infer_instance

instance (matched : Matched) [known : Proper matched] : Orderly (matchedOrThrow matched) := by
  obtain ⟨failed, bindings⟩ := matched
  unfold matchedOrThrow
  cases failed with
  | none => infer_instance
  | some fault =>
    have fault_proper : Proper fault := ⟨known.holds.1 fault rfl⟩
    infer_instance

instance (keywords : List String) (signatures : List Signature) :
    Orderly (engine.firstMatch function receiver args keywords signatures) := by
  induction signatures <;> unfold firstMatch <;> infer_instance

instance : Orderly (engine.callFunction function receiver args keywords) := by
  unfold callFunction
  split <;> infer_instance

instance (found : Found) : Orderly (engine.bindMember value name found) := by
  unfold bindMember
  split
  · split <;> infer_instance
  · infer_instance

instance : Orderly (engine.attributeOf value name) := by
  unfold attributeOf
  split <;> infer_instance

section Caller

variable {call : Caller} [∀ value args keywords, Orderly (call value args keywords)]

instance : Orderly (engine.elementOfPlain call t) := by
  unfold elementOfPlain
  split
  · infer_instance
  · infer_instance
  · refine orderly_except (fun iterator _ => ?_) (fun fault _ => inferInstance)
    cases iterator <;> infer_instance

instance : Orderly (engine.elementOfArm call t) := by
  unfold elementOfArm
  split
  · refine orderly_bind fun joined _ => ?_
    split <;> infer_instance
  · infer_instance

instance : Orderly (engine.elementType call t) := by
  unfold elementType
  split <;> infer_instance

instance (index : Nat) : Orderly (engine.pairOf call index t) := by
  unfold pairOf
  split
  · infer_instance
  · infer_instance
  · infer_instance
  · infer_instance
  · rename_i elements _ _ _
    have finding : Proper (Cause.dictArity index elements.length) := ⟨trivial⟩
    infer_instance
  · infer_instance

instance : Orderly (engine.dictArgPairs call args) := by
  unfold dictArgPairs
  split <;> infer_instance

instance (ref : ClassRef) : Orderly (engine.makeContainer call ref args keywords) := by
  unfold makeContainer
  split
  · infer_instance
  · infer_instance
  · infer_instance
  · infer_instance
  · infer_instance
  · split <;> infer_instance

instance (receiver : Receiver) (failed : Option Fault) (signatures : List Signature) [Proper failed] :
    Orderly (engine.specializeBy function receiver args keywords failed signatures) := by
  induction signatures generalizing failed with
  | nil =>
    unfold specializeBy
    infer_instance
  | cons _ _ ih =>
    refine orderly_option (ih failed) fun bindings _ => ?_
    refine orderly_pair fun failure bindings known _ => ?_
    cases failure with
    | none => infer_instance
    | some fault =>
      exact ih (some fault)

instance (cls : Class) : Orderly (engine.specialize cls args keywords) := by
  refine orderly_bind fun found _ => ?_
  split
  · refine orderly_pair fun bindings failed _ known => ?_
    cases bindings with
    | some => infer_instance
    | none =>
      cases failed with
      | none => infer_instance
      | some fault =>
        have fault_proper : Proper fault := ⟨known.holds fault rfl⟩
        infer_instance
  · infer_instance

instance : Orderly (engine.constructPlain call t args keywords) := by
  unfold constructPlain
  split
  all_goals try infer_instance
  split
  all_goals split <;> infer_instance

instance : Orderly (engine.construct call t args keywords) := by
  unfold construct
  split <;> infer_instance

instance : Orderly (engine.callStep call value args keywords) := by
  unfold callStep
  split <;> infer_instance

end Caller

instance (depth : Nat) : Orderly (engine.callWithin depth value args keywords) := by
  induction depth generalizing value args keywords <;> unfold callWithin <;> infer_instance

instance (value arg : Ty) : Orderly (engine.accepts value arg) := by
  unfold accepts
  split <;> infer_instance

instance : Propriety Asked := ⟨fun
    | .failed fault => proper fault
    | _ => True⟩

instance (t : Ty) : Proper (Asked.given t) := ⟨trivial⟩

instance : Proper Asked.declined := ⟨trivial⟩

instance (fault : Fault) [known : Proper fault] : Proper (Asked.failed fault) := ⟨known.holds⟩

instance (asked : Asked) [known : Proper asked] : Proper (Asked.otherFailure? asked) := by
  unfold Asked.otherFailure?
  cases asked with
  | failed fault =>
    have fault_proper : Proper fault := ⟨known.holds⟩
    infer_instance
  | given | declined => infer_instance

instance : Orderly (engine.binaryPlain op left right) := by
  unfold binaryPlain
  split
  · infer_instance
  refine orderly_bind fun first _ => ?_
  split
  · infer_instance
  refine orderly_bind fun second _ => ?_
  split
  · infer_instance
  split
  · rename_i failure
    have fault_proper := Proper.of_some failure
    infer_instance
  · rename_i failure
    have fault_proper := Proper.of_some failure
    infer_instance
  · infer_instance

instance : Orderly (engine.binaryRight op left right) := by
  unfold binaryRight
  split <;> infer_instance

instance : Orderly (engine.binary op left right) := by
  unfold binary
  split <;> infer_instance

instance (op : UnaryOp) (operand : Ty) : Orderly (engine.unary op operand) := by
  unfold unary
  split <;> infer_instance

instance (op : CompareOp) : Orderly (engine.comparison op left right) := by
  unfold comparison
  split <;> infer_instance

end Engine

end Stubwise
