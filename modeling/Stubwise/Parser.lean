import Stubwise.Parser.Compound

/-!
Reading source texts as trees. Statements that cannot be read are reported and left out; the rest of
the module is still given.
-/

namespace Stubwise

/-- What reading a text gave: a tree, the faults found on the way, and the first number that no
node of the tree has. -/
structure Parsed (α : Type) where
  tree : α
  faults : List Diagnostic
  nextNode : Nat

namespace Parser

def moduleStmts : Nat → Step (List Stmt)
  | 0 => do
    modify fun state => { state with exhausted := true }
    return []
  | turns + 1 => do
    if ← currentIs .eof then return []
    let first ← statement
    advance
    return first ++ (← moduleStmts turns)

/-- More turns than any loop over a text of this length takes. Abandoned brackets make the parser go
back, so it may meet more tokens than the text has; but every statement starts further on than the
one before it. -/
def turnBound (length : Nat) : Nat :=
  (16 * length + 3) * (length + 1)

def startText (file source : String) (firstNode : Nat) : State :=
  { State.start (.live (.ofText source)) (turnBound source.length) with
    file, nextNode := firstNode }

def State.result {α : Type} (state : State) (tree : α) : Parsed α :=
  { tree, faults := state.faults.reverse, nextNode := state.nextNode }

end Parser

open Parser

def parseModule (file source : String) (firstNode : Nat := 0) : Parsed Module :=
  let start := startText file source firstNode
  let (body, state) := (moduleStmts start.budget).run start
  state.result { file, body }

def parseExpression (source : String) (firstNode : Nat := 0) : Parsed (Option Expr) :=
  let (expr, state) := (expressionOnly expression).run (startText "" source firstNode)
  state.result expr

end Stubwise
