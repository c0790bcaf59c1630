import Stubwise.Ty.Text

/-!
Identity of types and unions in normal form. A normal union has at least two arms, no two of them
identical and none `Any` or a union itself, in the order of their texts.
-/

namespace Stubwise.Ty

mutual

/-- Structural identity. Classes count by qualified name, variables by name, functions by their
text, and two instances are identical only if they are the same one. -/
def identical : Ty → Ty → Bool
  | any, any => true
  | var a _, var b _ => a == b
  | cls a, cls b => a.same b
  | app a as, app b bs => a.same b && allIdentical as bs
  | tuple as, tuple bs => allIdentical as bs
  | union as, union bs => allIdentical as bs
  | literal as, literal bs => as == bs
  | func a, func b => a.text == b.text
  | method receiver owner name _, method receiver' owner' name' _ =>
    name == name' && owner.identical owner' && receiver.identical receiver'
  | type a, type b => a.identical b
  | module a, module b => a == b
  | object a _, object b _ => a == b
  | _, _ => false

def allIdentical : List Ty → List Ty → Bool
  | [], [] => true
  | a :: as, b :: bs => a.identical b && allIdentical as bs
  | _, _ => false

end

def arms : Ty → List Ty
  | union arms => arms
  | t => [t]

def distinct (types : List Ty) : List Ty :=
  types.foldl (fun kept t => if kept.any (t.identical ·) then kept else kept ++ [t]) []

def sortByText (types : List Ty) : List Ty :=
  types.mergeSort fun a b => decide (a.text ≤ b.text)

/-- The union of types in normal form. `Any` absorbs the others, and the union of nothing is
`Any`. -/
def unionOf (types : List Ty) : Ty :=
  if types.any isAny then any
  else match distinct (types.flatMap arms) with
    | [] => any
    | [t] => t
    | ts => union (sortByText ts)

end Stubwise.Ty
