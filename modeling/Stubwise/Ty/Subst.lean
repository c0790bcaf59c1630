import Stubwise.Data.Table
import Stubwise.Ty.Union

/-!
Substitution. A substitution is applied to its own images again, except that on the way into the
image of a variable this variable is left alone; so even cyclic substitutions come to an end.
-/

namespace Stubwise

abbrev Subst := Table Ty

namespace Ty

section

variable {m : Type → Type} [Monad m] (image : Ty → Option (m Ty))

mutual

/-- Puts other types in the place of those that have an image. Unions are brought to normal form
again. -/
def rebuild (t : Ty) : m Ty :=
  (image t).getD <| match t with
    | app ref args => return app ref (← rebuildAll args)
    | tuple elements => return tuple (← rebuildAll elements)
    | union arms => return unionOf (← rebuildAll arms)
    | func ⟨name, overloads, decorators⟩ =>
      return func ⟨name, ← rebuildOverloads overloads, decorators⟩
    | method receiver owner name ⟨plain, overloads, decorators⟩ => do
      let receiver ← rebuild receiver
      let owner ← rebuild owner
      return method receiver owner name ⟨plain, ← rebuildOverloads overloads, decorators⟩
    | type inner => return type (← rebuild inner)
    | t => return t

def rebuildAll : List Ty → m (List Ty)
  | [] => return []
  | t :: rest => return (← rebuild t) :: (← rebuildAll rest)

def rebuildOption : Option Ty → m (Option Ty)
  | none => return none
  | some t => return some (← rebuild t)

def rebuildOverloads : List Signature → m (List Signature)
  | [] => return []
  | ⟨params, returns, body⟩ :: rest => do
    let params ← rebuildParams params
    let returns ← rebuildOption returns
    return ⟨params, returns, body⟩ :: (← rebuildOverloads rest)

def rebuildParams : List Formal → m (List Formal)
  | [] => return []
  | ⟨name, declared, kind, hasDefault⟩ :: rest => do
    let declared ← rebuildOption declared
    return ⟨name, declared, kind, hasDefault⟩ :: (← rebuildParams rest)

end

end

def varImage {α : Type} (image : String → Option α) : Ty → Option α
  | var name _ => image name
  | _ => none

/-- Replaces the variables that have an image. Instances stay as they are. -/
def mapVars (image : String → Option Ty) (t : Ty) : Ty :=
  Id.run (t.rebuild (varImage image))

def isVarNamed (name : String) : Ty → Bool
  | var other _ => other == name
  | _ => false

end Ty

namespace Subst

/-- What a substitution puts in the place of a variable before it goes on into the image. A
variable that was passed already, or that stands for itself, stays. -/
def imageOf (subst : Subst) (passed : List String) (name : String) : Option Ty :=
  if passed.contains name then none
  else match subst.get? name with
    | some image => if image.isVarNamed name then none else some image
    | none => none

/-- Applies a substitution below the variables in `passed`. Each step into an image passes one more
variable, so as many steps as there are variables suffice. -/
def applyWithin (subst : Subst) : Nat → List String → Ty → Ty
  | 0, _, t => t.mapVars fun _ => none
  | steps + 1, passed, t =>
    t.mapVars fun name =>
      (subst.imageOf passed name).map (applyWithin subst steps (name :: passed))

def apply (subst : Subst) (t : Ty) : Ty :=
  if subst.isEmpty then t else subst.applyWithin subst.length [] t

def objectFree (subst : Subst) : Bool :=
  subst.all fun entry => entry.2.objectFree

end Subst

namespace Ty

/-- Puts a type in the place of `Self`. Bound methods, literals and instances stay as they are. -/
def replaceSelf (replacement t : Ty) : Ty :=
  Id.run (t.rebuild fun
    | cls ref => if ref == selfRef then some replacement else none
    | method receiver owner name function => some (method receiver owner name function)
    | _ => none)

end Ty

end Stubwise
