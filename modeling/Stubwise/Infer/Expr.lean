import Stubwise.Infer.Index
import Stubwise.Infer.Walker

namespace Stubwise

def Expr.isStarred : Expr → Bool
  | starred .. => true
  | _ => false

namespace Ty

def sliceType : Ty :=
  .cls (.builtin "slice")

def setOf (element : Ty) : Ty :=
  .builtinOf "set" [element]

def generatorOf (element : Ty) : Ty :=
  .app { module := ClassRef.typingModule, name := "Generator" } [element, .noneType, .noneType]

def isTypeVarClass (t : Ty) : Bool :=
  match t with
  | .type (.cls ref) => ref.module == ClassRef.typingModule && ref.name == "TypeVar"
  | _ => false

end Ty

namespace Walker

mutual

/-- Binds the names of a target whose value is not known. -/
def bindAny (walker : Walker) : Expr → Infer Unit
  | .name _ id _ => do
    let _ ← attempt (Session.storeName walker.frame id .any)
  | .tuple _ elements _ => bindAnyAll walker elements
  | .list _ elements _ => bindAnyAll walker elements
  | .starred _ value _ => bindAny walker value
  | _ => return ()

def bindAnyAll (walker : Walker) : List Expr → Infer Unit
  | [] => return ()
  | target :: rest => do
    bindAny walker target
    bindAnyAll walker rest

end

def boundOf (walker : Walker) : List NamedArg → Infer (Option Ty)
  | [] => return none
  | keyword :: rest => do
    if keyword.name == "bound" then
      let bound ← walker.hintType keyword.value
      return (← walker.boundOf rest).or (some bound)
    else walker.boundOf rest

def typeVarCall (walker : Walker) (mark : Mark) (args : List Expr) (keywords : List NamedArg) :
    Infer Ty := do
  match args with
  | [] => throw (notInferred mark.position "TypeVar() needs a name")
  | .constant _ .str name :: _ => return .type (.var name (← walker.boundOf keywords))
  | _ :: _ => throw (notInferred mark.position "TypeVar() name must be a string literal")

def unpackArm (engine : Engine) : Ty → Infer Ty
  | .tuple (element :: _) => return element
  | .app _ (arg :: _) => return arg
  | arm => engine.element arm

/-- The type that each target gets when a value is unpacked whose length is not known. -/
def unpackElement (engine : Engine) (t : Ty) : Infer Ty := do
  match t with
  | .union arms => do engine.world.joinAll (← arms.mapM (unpackArm engine))
  | t => engine.element t

abbrev assignReceiver (walker : Walker) (cls : Class) (attr : String) (t : Ty) : Infer Unit := do
  let known := (← get).assignedTo cls attr
  let joined ← walker.engine.world.joinMissing known (some t)
  Session.recordAssigned cls attr (joined.getD t)

/-- Records an assignment to an attribute of a value. -/
def assignMember (walker : Walker) (base : Ty) (owner : Expr) (attr : String) (t : Ty) :
    Infer Unit := do
  match base, owner with
  | .object id _, _ =>
    modify fun session => { session with instances := session.instances.setAttr id attr t }
  | base, .name _ id _ => do
    match base.nominal? with
    | none => return ()
    | some (ref, _) => do
      if ref.module == (← get).module then
        let value ← modifyGet fun session =>
          let (value, instances) := session.instances.make base
          (value, { session with instances })
        match value with
        | .object number _ =>
          modify fun session =>
            { session with instances := session.instances.setAttr number attr t }
        | _ => pure ()
        Session.storeName walker.frame id value
  | _, _ => return ()

/-- Checks the assignment of an item. -/
abbrev assignItem (walker : Walker) (position : Position) (base index t : Ty) : Infer Unit := do
  match ← attempt (walker.engine.callMethod base "__setitem__" [index, t]) with
  | .ok _ => return ()
  | .error fault =>
    if fault.lacksAttribute then
      throw (.fault (fault.wrapped .attributeNotFound
        s!"{base.text} does not support item assignment" position))
    else if fault.hasCode .unmatchedOverload || fault.hasCode .unificationFailure then return ()
    else throw (.fault (fault.placed position))

def parts? (targets : List Expr) (t : Ty) : Option (List Ty) :=
  match t with
  | .tuple parts =>
    if parts.length == targets.length && !targets.any (·.isStarred) then some parts else none
  | _ => none

def unpack (walker : Walker) (t : Ty) (targets : List Expr) (eachPart : List Ty → Infer Unit)
    (all : Ty → Infer Unit) : Infer Unit := do
  match parts? targets t with
  | some parts => eachPart parts
  | none => do
    match ← attempt (unpackElement walker.engine t) with
    | .ok element => all element
    | .error fault => do
      bindAnyAll walker targets
      throw (.fault fault)

def subscript (walker : Walker) (whole : Expr) (written : Expr) (base : Ty) (index : Infer Ty) :
    Infer Ty := do
  let item : Infer Ty := do walker.engine.callMethod base "__getitem__" [← index]
  match base with
  | .any => do
    let _ ← index
    return .any
  | .type _ => return .type (← walker.hintType whole)
  | .tuple elements => do
    match written.index? with
    | none => item
    | some position => do
      match elementAt? elements position with
      | some element => return element
      | none => throw (.ofDiagnostic {
          code := .attributeNotFound
          message := s!"index {written.token.lexeme} out of range for {base.text}"
          position := whole.position })
  | _ => item

mutual

def infer (walker : Walker) (asLoad : Bool) (expr : Expr) : Infer Ty :=
  walker.shown asLoad expr fun walker => match expr with
    | .name mark id context => do
      if asLoad || context == .load then Session.loadName walker.frame id
      else throw (misuse mark.position
        s!"{Text.quote id} is a {context.text} target, not a value")
    | .constant _ kind _ => return kind.type
    | .formatted _ values => do
      let _ ← inferEach walker values
      return .strType
    | .list _ elements _ => do
      return .listOf (← walker.engine.world.joinAll (← inferEach walker elements))
    | .set _ elements => do
      return .setOf (← walker.engine.world.joinAll (← inferEach walker elements))
    | .tuple _ elements _ => do
      let types ← inferEach walker elements
      if elements.any (·.isStarred) then return .tupleOf (← walker.engine.world.joinAll types)
      else return .tuple types
    | .dict _ items => do
      inferItems walker items
      return .cls (.builtin "dict")
    | .listComp _ element clauses => do
      let inner := walker.within (← Session.addFrame (.ofClauses clauses walker.frame))
      runClauses walker inner clauses
      return .listOf (← infer inner false element)
    | .setComp _ element clauses => do
      let inner := walker.within (← Session.addFrame (.ofClauses clauses walker.frame))
      runClauses walker inner clauses
      return .setOf (← infer inner false element)
    | .generator _ element clauses => do
      let inner := walker.within (← Session.addFrame (.ofClauses clauses walker.frame))
      runClauses walker inner clauses
      return .generatorOf (← infer inner false element)
    | .dictComp _ key value clauses => do
      let inner := walker.within (← Session.addFrame (.ofClauses clauses walker.frame))
      runClauses walker inner clauses
      let key ← infer inner false key
      return .dictOf key (← infer inner false value)
    | .starred _ value _ => do walker.engine.element (← infer walker false value)
    | .named _ _ id value => do
      let t ← infer walker false value
      Session.storeName walker.frame id t
      return t
    | .binary _ op left right => do
      let left ← infer walker false left
      walker.engine.binary op left (← infer walker false right)
    | .unary _ op operand => do walker.engine.unary op (← infer walker false operand)
    | .boolean _ _ values => do walker.engine.world.joinAll (← inferEach walker values)
    | .compare _ left comparisons => do
      let left ← infer walker false left
      walker.engine.world.joinAll (← inferComparisons walker left comparisons)
    | .conditional _ test body orElse => do
      let _ ← infer walker false test
      let body ← infer walker false body
      walker.engine.world.join body (← infer walker false orElse)
    | .call mark callee args keywords => do
      let callee ← infer walker false callee
      if callee.isTypeVarClass then walker.typeVarCall mark args keywords
      else
        let args ← inferEach walker args
        walker.engine.call callee args (← inferKeywords walker keywords)
    | .access mark value attr context => do
      if asLoad || context == .load then
        walker.engine.attributeOf (← infer walker false value) attr
      else throw (misuse mark.position
        s!"attribute {Text.quote attr} is a {context.text} target, not a value")
    | .subscript mark value index context => do
      if asLoad || context == .load then
        let base ← infer walker false value
        walker.subscript expr index base (infer walker false index)
      else throw (misuse mark.position s!"subscript is a {context.text} target, not a value")
    | .slice _ lower upper step => do
      inferOption walker lower
      inferOption walker upper
      inferOption walker step
      return .sliceType
    | .lambda mark _ _ => throw (notInferred mark.position "lambda expressions are not inferred")
    | .yield mark _ _ => throw (notInferred mark.position "yield is not inferred")
    | .await mark _ => throw (notInferred mark.position "await is not inferred")

def inferOption (walker : Walker) : Option Expr → Infer Unit
  | none => return ()
  | some expr => do
    let _ ← infer walker false expr

def inferEach (walker : Walker) : List Expr → Infer (List Ty)
  | [] => return []
  | expr :: rest => do
    let first ← infer walker false expr
    return first :: (← inferEach walker rest)

def inferItems (walker : Walker) : List DictItem → Infer Unit
  | [] => return ()
  | ⟨key, value⟩ :: rest => do
    inferOption walker key
    let _ ← infer walker false value
    inferItems walker rest

def inferComparisons (walker : Walker) (left : Ty) : List Comparison → Infer (List Ty)
  | [] => return []
  | ⟨op, operand⟩ :: rest => do
    let right ← infer walker false operand
    let first ← walker.engine.comparison op left right
    return first :: (← inferComparisons walker right rest)

def inferKeywords (walker : Walker) : List NamedArg → Infer (List KeywordArg)
  | [] => return []
  | ⟨_, name, value⟩ :: rest => do
    let type ← infer walker false value
    return { name, type } :: (← inferKeywords walker rest)

/-- Runs the clauses of a comprehension. -/
def runClauses (source inner : Walker) : List Comprehension → Infer Unit
  | [] => return ()
  | ⟨_, target, iter, conditions, _⟩ :: rest => do
    let iterated ← infer source false iter
    let element ← placingAt iter.position (inner.engine.element iterated)
    assign inner element target
    let _ ← inferEach inner conditions
    runClauses inner inner rest

def assign (walker : Walker) (t : Ty) (target : Expr) : Infer Unit :=
  match target with
  | .name _ id _ => Session.storeName walker.frame id t
  | .tuple _ elements _ =>
    walker.unpack t elements (assignParts walker · elements) (assignAll walker · elements)
  | .list _ elements _ =>
    walker.unpack t elements (assignParts walker · elements) (assignAll walker · elements)
  | .starred _ value _ => assign walker (.listOf t) value
  | .access mark value attr _ =>
    match walker.receiverClass? value with
    | some cls => walker.assignReceiver cls attr t
    | none => do
      let base ← infer walker true value
      Session.ofExcept (World.assignable base attr mark.position)
      walker.assignMember base value attr t
  | .subscript mark value index _ => do
    let base ← infer walker true value
    let index ← infer walker false index
    walker.assignItem mark.position base index t
  | target => throw (misuse target.position s!"cannot assign to {target.targetDescription}")

def assignParts (walker : Walker) : List Ty → List Expr → Infer Unit
  | t :: parts, target :: rest => do
    assign walker t target
    assignParts walker parts rest
  | _, _ => return ()

def assignAll (walker : Walker) (t : Ty) : List Expr → Infer Unit
  | [] => return ()
  | target :: rest => do
    assign walker t target
    assignAll walker t rest

end

end Walker

end Stubwise
