import Stubwise.Lattice.Base

namespace Stubwise

namespace Ty

def equal (a b : Ty) : Bool :=
  identical (instanceClass a) (instanceClass b)
where
  instanceClass : Ty → Ty
    | object _ base => base
    | t => t

end Ty

namespace Lattice

variable {m : Type → Type} [Monad m]

def allOf {α : Type} (holds : α → m Bool) : List α → m Bool
  | [] => return true
  | a :: rest => do if ← holds a then allOf holds rest else return false

def anyOf {α : Type} (holds : α → m Bool) : List α → m Bool
  | [] => return false
  | a :: rest => do if ← holds a then return true else anyOf holds rest

/-- Whether an arm lies below another arm of its union. Of two arms below each other the earlier
one stays. -/
def redundantArm (sub : Ty → Ty → m Bool) (index : Nat) (arm : Ty) : Nat → List Ty → m Bool
  | _, [] => return false
  | place, other :: rest => do
    if index == place || arm.identical other then redundantArm sub index arm (place + 1) rest
    else if ← sub arm other then
      if !(← sub other arm) || decide (place < index) then return true
      else redundantArm sub index arm (place + 1) rest
    else redundantArm sub index arm (place + 1) rest

def keptArms (sub : Ty → Ty → m Bool) (arms : List Ty) : Nat → List Ty → m (List Ty)
  | _, [] => return []
  | index, arm :: rest => do
    if ← redundantArm sub index arm 0 arms then keptArms sub arms (index + 1) rest
    else return arm :: (← keptArms sub arms (index + 1) rest)

def absorb (sub : Ty → Ty → m Bool) : Ty → m Ty
  | .union arms => return Ty.unionOf (← keptArms sub arms 0 arms)
  | t => return t

def joinPlain (sub : Ty → Ty → m Bool) (a b : Ty) : m Ty := do
  let below ← sub a b
  let above ← sub b a
  match below, above with
  | true, true => return if a.text < b.text then a else b
  | true, false => return b
  | false, true => return a
  | false, false => absorb sub (Ty.unionOf [a, b])

def joinRight (sub : Ty → Ty → m Bool) (a : Ty) : Ty → m Ty
  | .object id base =>
    if a.isAny then return .any
    else if a.identical (.object id base) then return a
    else joinRight sub a base
  | b =>
    if a.isAny || b.isAny then return .any
    else if a.identical b then return a
    else joinPlain sub a b

/-- The least upper bound of two types. Different instances are joined as their classes. -/
def joinWith (sub : Ty → Ty → m Bool) : Ty → Ty → m Ty
  | .object id base, b =>
    if b.isAny then return .any
    else if (Ty.object id base).identical b then return .object id base
    else joinWith sub base b
  | a, b => joinRight sub a b

def joinOption (sub : Ty → Ty → m Bool) : Option Ty → Option Ty → m (Option Ty)
  | none, b => return b
  | a, none => return a
  | some a, some b => return some (← joinWith sub a b)

def joinFrom (sub : Ty → Ty → m Bool) : Option Ty → List Ty → m (Option Ty)
  | joined, [] => return joined
  | joined, t :: rest => do joinFrom sub (← joinOption sub joined (some t)) rest

/-- The join of all types of a list; that of none is `Any`. -/
abbrev joinAllWith (sub : Ty → Ty → m Bool) (types : List Ty) : m Ty := do
  return (← joinFrom sub none types).getD .any

end Lattice

namespace World

variable {m : Type → Type} [Monad m]

open Lattice

abbrev subclass (world : World m) (conforms : Conforms m) (a b : ClassRef) : m Bool := do
  if a.same b then return true
  return (← world.upcast conforms (.cls a) b).isSome

def subtypeOfClasses (world : World m) (conforms : Conforms m) (a b : Ty) : m Bool :=
  allOf (fun arm => anyOf (fun other =>
    match arm, other with
    | .cls ref, .cls target => world.subclass conforms ref target
    | _, _ => return false) b.arms) a.arms

def literalType (world : World m) (conforms : Conforms m) (values : List LiteralValue) : m Ty :=
  joinAllWith (world.subtypeOfClasses conforms) ((Ty.literalClasses values).map .cls)

end World

namespace Ty

/-- The size of the left side of a subtype question. A class has none, since all questions end with
classes. -/
noncomputable def rank : Ty → Nat
  | cls _ => 0
  | t => sizeOf t

theorem sizeOf_pos (t : Ty) : 0 < sizeOf t := by
  cases t <;> simp <;> omega

theorem rank_le_sizeOf (t : Ty) : t.rank ≤ sizeOf t := by
  cases t <;> simp [rank]

end Ty

namespace World

variable {m : Type → Type} [Monad m]

open Lattice

/-- Whether `a` is a subtype of `b`. `Any` is above everything and below nothing else; a union is
below a type if all its arms are, and above one if some arm is. Of arguments `Any` fits on either
side. -/
def subtype (world : World m) (conforms : Conforms m) (a b : Ty) : m Bool := do
  match a, b with
  | _, .any => return true
  | .any, _ => return false
  | .union arms, b => allOf (fun arm => world.subtype conforms arm.1 b) arms.attach
  | a, .union arms => anyOf (fun arm => world.subtype conforms a arm.1) arms.attach
  | a, b =>
    if a.identical b then return true
    match a, b with
    | .var _ bound, b =>
      match bound with
      | some bound => world.subtype conforms bound b
      | none => return b.isObject
    | .literal values, .literal others => return values.all (others.contains ·)
    | .literal values, b => do
      allOf (fun
        | .cls ref => world.subtype conforms (.cls ref) b
        | _ => return false) (← world.literalType conforms values).arms
    | .tuple elements, .tuple others =>
      if elements.length != others.length then return false
      else allOf (fun pair => world.subtype conforms pair.1.1 pair.1.2) (elements.zip others).attach
    | .type inner, .type other => world.subtype conforms inner other
    | a, .cls target => return (← world.upcast conforms a target).isSome
    | a, .app target others => do
      match ← world.upcast conforms a target with
      | none => return false
      | some args =>
        allOf (fun pair => do
          if pair.1.1.isAny || pair.1.2.isAny || pair.1.1.equal pair.1.2 then return true
          else world.subtype conforms pair.1.1 pair.1.2) (args.zip others).attach
    | _, _ => return false
termination_by (sizeOf b, a.rank)
decreasing_by
  all_goals simp only [Prod.lex_def, Ty.rank]
  · have := List.sizeOf_lt_of_mem arm.2
    have := arm.1.rank_le_sizeOf
    grind
  · have := List.sizeOf_lt_of_mem arm.2
    grind
  · have := bound.rank_le_sizeOf
    grind
  · grind
  · have := List.sizeOf_lt_of_mem (List.of_mem_zip pair.2).2
    grind
  · grind
  · have := List.sizeOf_lt_of_mem (List.of_mem_zip pair.2).2
    grind

end World

end Stubwise
