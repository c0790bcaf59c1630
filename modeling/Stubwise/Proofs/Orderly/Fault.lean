import Stubwise.Hint
import Stubwise.Proofs.Orderly.Work

namespace Stubwise

open List Accountable

/-- The messages of hints that are refused. -/
class inductive Hint.Refuses : String → Prop where
  | literal : Refuses "Literal[] takes constants only"
  | notGeneric (head : Ty) : Refuses s!"{head.text} is not generic"
  | expression (lexeme : String) : Refuses s!"unsupported type expression {Text.quote lexeme}"
  | reference (text : String) : Refuses s!"invalid forward reference {Text.quote text}"

attribute [instance] Hint.Refuses.literal Hint.Refuses.notGeneric Hint.Refuses.expression
  Hint.Refuses.reference

/-- A hint that is refused is reported where it was read, also if that was in another text. -/
def Diagnostic.IsRefusal (diagnostic : Diagnostic) : Prop :=
  diagnostic.code = .unsupported ∧ Hint.Refuses diagnostic.message

/-- Which places are near, and which diagnostics may be in faults and in reports. Of the codes only
that for the misuse of a context may be left out. -/
class Standard where
  near : Position → Prop
  allows : Diagnostic → Prop
  reports : Diagnostic → Prop
  usual {diagnostic : Diagnostic} (code : diagnostic.code.text ≠ Code.contextMisuse.text)
    (place : diagnostic.position.isSet = false ∨ near diagnostic.position ∨ diagnostic.IsRefusal) :
    allows diagnostic
  stays {diagnostic other : Diagnostic} (known : allows diagnostic)
    (code : other.code = diagnostic.code) (message : other.message = diagnostic.message)
    (place : other.position = diagnostic.position ∨ near other.position) : allows other
  reported {diagnostic : Diagnostic} (known : allows diagnostic)
    (place : diagnostic.position.isSet = true ∨ near diagnostic.position) : reports diagnostic

instance (priority := low) noMisuse : Standard where
  near _ := True
  allows diagnostic := diagnostic.code.text ≠ Code.contextMisuse.text
  reports diagnostic := diagnostic.code.text ≠ Code.contextMisuse.text
  usual code _ := code
  stays known code _ _ := code ▸ known
  reported known _ := known

variable [Standard]

instance positionPropriety : Propriety Position := ⟨Standard.near⟩

instance : Propriety Diagnostic := ⟨Standard.allows⟩

instance : Propriety Code := ⟨fun code => ∀ diagnostic : Diagnostic, diagnostic.code = code →
    diagnostic.position.isSet = false ∨ proper diagnostic.position → proper diagnostic⟩

instance : Propriety Cause := ⟨fun
    | .diagnostic diagnostic => proper diagnostic
    | _ => True⟩

instance : Propriety Fault := ⟨fun fault => proper fault.causes⟩

instance : Propriety Stop := ⟨fun
    | .fault fault => proper fault
    | .crash _ => True⟩

instance : @AllProper Position (@positionPropriety noMisuse) :=
  @AllProper.mk _ (@positionPropriety noMisuse) fun _ => trivial

namespace Code

theorem proper_of_usual {code : Code} (usual : code.text ≠ contextMisuse.text := by decide) : Proper code where
  holds := by
    rintro diagnostic rfl place
    exact Standard.usual usual (place.imp_right .inl)

instance : Proper unboundName := proper_of_usual
instance : Proper typeVariableAccess := proper_of_usual
instance : Proper unmatchedOverload := proper_of_usual
instance : Proper malformedOverload := proper_of_usual
instance : Proper unificationFailure := proper_of_usual
instance : Proper malformedDict := proper_of_usual
instance : Proper stubNotFound := proper_of_usual
instance unsupported_proper : Proper unsupported := proper_of_usual
instance : Proper attributeNotFound := proper_of_usual
instance : Proper notCallable := proper_of_usual
instance : Proper unexpectedToken := proper_of_usual
instance : Proper illegalCharacter := proper_of_usual
instance : Proper badIndentation := proper_of_usual
instance : Proper invalidTarget := proper_of_usual
instance : Proper nestingTooDeep := proper_of_usual

end Code

namespace Diagnostic

section

variable (code : Code) (message : String) (file node : String) (frames : List String)
  [known : Proper code]

instance mk_proper (position : Position) [here : Proper position] :
    Proper ({ code, message, position, file, node, frames } : Diagnostic) :=
  ⟨known.holds _ rfl (.inr here.holds)⟩

instance : Proper ({ code, message, file, node, frames } : Diagnostic) := ⟨known.holds _ rfl (.inl rfl)⟩

end

variable {diagnostic : Diagnostic} [known : Proper diagnostic]

instance (position : Position) [here : Proper position] : Proper (diagnostic.placedAt position) := by
  unfold placedAt
  split
  · exact known
  · exact ⟨Standard.stays known.holds rfl rfl (.inr here.holds)⟩

instance withNode_proper (node : String) : Proper (diagnostic.withNode node) := by
  unfold withNode
  split
  · exact ⟨Standard.stays known.holds rfl rfl (.inl rfl)⟩
  · exact known

omit [Standard] known in
theorem position_inFile (diagnostic : Diagnostic) (file : String) :
    (diagnostic.inFile file).position = diagnostic.position := by
  unfold inFile
  split <;> rfl

instance (file : String) : Proper (diagnostic.inFile file) := by
  unfold inFile
  split
  · exact ⟨Standard.stays known.holds rfl rfl (.inl rfl)⟩
  · exact known

end Diagnostic

namespace Fault

instance ofDiagnostic_proper (diagnostic : Diagnostic) [known : Proper diagnostic] :
    Proper (ofDiagnostic diagnostic) :=
  ⟨forall_mem_singleton.mpr known.holds⟩

instance (text : String) : Proper (plain text) := ⟨forall_mem_singleton.mpr trivial⟩

instance (code : Code) (finding : Cause) [known : Proper code]
    [found : Proper finding] : Proper (ofFinding code finding) :=
  ⟨forall_mem_cons.mpr ⟨known.holds _ rfl (.inl rfl), forall_mem_singleton.mpr found.holds⟩⟩

section

variable {fault : Fault} [known : Proper fault]

theorem wrapped_of_proper {code : Code} {message : String} {position : Position}
    (outer : Proper ({ code, message, position } : Diagnostic)) :
    Proper (fault.wrapped code message position) :=
  ⟨forall_mem_cons.mpr ⟨outer.holds, known.holds⟩⟩

instance (code : Code) (message : String) (position : Position)
    [coded : Proper code] [here : Proper position] : Proper (fault.wrapped code message position) :=
  wrapped_of_proper inferInstance

instance (code : Code) (message : String) [coded : Proper code] :
    Proper (fault.wrapped code message) :=
  wrapped_of_proper inferInstance

instance (name : Option String) : Proper ({ fault with remembered := name } : Fault) := ⟨known.holds⟩

theorem fromDiagnostic?_proper {causes rest : List Cause} {diagnostic : Diagnostic}
    (all : proper causes) (found : fromDiagnostic? causes = some (diagnostic, rest)) :
    proper diagnostic ∧ proper rest := by
  induction causes with
  | nil => cases found
  | cons cause more ih =>
    obtain ⟨first, others⟩ := forall_mem_cons.mp all
    cases cause with
    | diagnostic =>
      obtain ⟨rfl, rfl⟩ := Prod.mk.inj (Option.some.inj found)
      exact ⟨first, others⟩
    | missingAttribute | dictArity | unboundParams | note => exact ih others found

theorem positioned_proper (fault : Fault) [known : Proper fault] (position : Position)
    [here : Proper position] : proper (fault.positioned position).1 ∧ proper (fault.positioned position).2 := by
  unfold positioned
  split
  · rename_i diagnostic inner found
    obtain ⟨outer, others⟩ := fromDiagnostic?_proper known.holds found
    have : Proper diagnostic := ⟨outer⟩
    exact ⟨(inferInstance : Proper (diagnostic.placedAt position)).holds, others⟩
  · exact ⟨Code.unsupported_proper.holds _ rfl (.inr here.holds), known.holds⟩

instance (position : Position) [Proper position] : Proper (fault.positioned position).1 :=
  ⟨(positioned_proper fault position).1⟩

omit [Standard] in
theorem positioned_place (fault : Fault) (position : Position) :
    (fault.positioned position).1.position.isSet = true ∨
      (fault.positioned position).1.position = position := by
  unfold positioned
  split
  · rename_i diagnostic inner found
    dsimp only [Diagnostic.placedAt]
    split
    · rename_i set
      exact .inl set
    · exact .inr rfl
  · exact .inr rfl

instance (position : Position) [Proper position] : Proper (fault.placed position) :=
  ⟨forall_mem_cons.mpr (positioned_proper fault position)⟩

theorem nodeInFirst_proper {causes : List Cause} (node : String) (all : proper causes) :
    proper (nodeInFirst node causes) := by
  induction causes with
  | nil => exact all
  | cons cause more ih =>
    obtain ⟨first, others⟩ := forall_mem_cons.mp all
    cases cause with
    | diagnostic diagnostic =>
      have : Proper diagnostic := ⟨first⟩
      exact forall_mem_cons.mpr ⟨(inferInstance : Proper (diagnostic.withNode node)).holds, others⟩
    | missingAttribute | dictArity | unboundParams | note =>
      exact forall_mem_cons.mpr ⟨first, ih others⟩

instance withNode_proper (node : String) : Proper (fault.withNode node) := by
  have all := nodeInFirst_proper node known.holds
  unfold withNode
  split
  · exact known
  · rename_i outermost inner shape
    rw [shape] at all
    exact ⟨all⟩

end

end Fault

namespace Stop

instance fault_proper (fault : Fault) [known : Proper fault] : Proper (Stop.fault fault) := ⟨known.holds⟩

instance (crash : Crash) : Proper (Stop.crash crash) := ⟨trivial⟩

instance ofDiagnostic_proper (diagnostic : Diagnostic) [Proper diagnostic] :
    Proper (ofDiagnostic diagnostic) := by
  unfold ofDiagnostic
  infer_instance

end Stop

/-- Monads in which stops are thrown and faults are caught. -/
class Catching (m : Type → Type) [Monad m] [MonadExceptOf Stop m] [Accountable m] : Prop where
  throw {α : Type} {post : α → Prop} {stop : Stop} (known : proper stop) :
    Accountable.Yields post (MonadExcept.throw stop : m α)
  attempt {α : Type} {post : α → Prop} {run : m α} (yields : Accountable.Yields post run) :
    Accountable.Yields (Meets post) (attempt run)

section

variable {m : Type → Type} [Monad m] [MonadExceptOf Stop m] [Accountable m] [Catching m]
  {α : Type} [Propriety α]

instance (stop : Stop) [known : Proper stop] : Orderly (throw stop : m α) := ⟨Catching.throw known.holds⟩

instance {run : m α} [inner : Orderly run] : Orderly (attempt run) := ⟨Catching.attempt inner.yields⟩

end

instance : Catching (Except Stop) where
  throw known := known
  attempt {_ _ run} yields := by
    cases run with
    | ok => exact yields
    | error stop => cases stop <;> exact yields

instance {m : Type → Type} [Monad m] [Accountable m] : Catching (ExceptT Stop m) where
  throw known := pure known
  attempt {α post run} yields := by
    have first : Accountable.Yields (Meets (Meets post))
        (do return Except.ok (← run) : ExceptT Stop m (Except Fault α)).run := by
      refine bind yields fun result holds => ?_
      cases result <;> exact pure holds
    refine bind first fun result holds => ?_
    rcases result with (fault | crash) | outcome <;> exact pure holds

end Stubwise
