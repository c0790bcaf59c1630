import Stubwise.Hint
import Stubwise.Proofs.Parser.Parallel
import Stubwise.Tree.Printer

/-!
Defaults stay with their parameters. The lists of defaults are followed through the reading of a
parameter list, beside a reading that keeps the parts as they are written.
-/

namespace Stubwise

open List

section Alignment

variable {α β : Type} {slots : List (Option α)} {values : List α}

/-- The values fill the last slots, and no others. -/
def Trailing (slots : List (Option α)) (values : List α) : Prop :=
  ∃ count, slots = replicate count none ++ values.map some

theorem Trailing.length_le (trailing : Trailing slots values) : values.length ≤ slots.length := by
  obtain ⟨count, rfl⟩ := trailing
  simp

end Alignment

namespace Parser

/-- One part of a parameter list as it is written. -/
inductive Written where
  | slash
  | star
  | kwarg
  | plain (param : Param) (default : Option Expr)

namespace Written

@[simp]
def isStar : Written → Bool
  | star => true
  | _ => false

/-- The parameter that a part is, with the default that is written for it. -/
@[simp]
def given : Written → List (Param × Option Expr)
  | plain param default => [(param, default)]
  | _ => []

end Written

/-- Where `parse` gives a value, `other` gives one that is related, and takes the same tokens. -/
def Echoes {α β : Type} (parse : Parse α) (other : Parse β) (related : α → β → Prop) : Prop :=
  ∀ state value after, parse.run.run state = (some value, after) →
    ∃ echo, other.run.run state = (some echo, after) ∧ related value echo

section Echoes

variable {α β γ δ : Type} {related : α → β → Prop} {further : γ → δ → Prop}

theorem Echoes.bind {parse : Parse α} {other : Parse β} {next : α → Parse γ} {after : β → Parse δ}
    (first : Echoes parse other related)
    (second : ∀ value echo, related value echo → Echoes (next value) (after echo) further) :
    Echoes (parse >>= next) (other >>= after) further := by
  intro state value last gives
  rw [run_parse_bind] at gives
  cases found : parse.run.run state with
  | mk result middle =>
    rw [found] at gives
    cases result with
    | none => cases gives
    | some value =>
      obtain ⟨echo, same, holds⟩ := first state value middle found
      rw [run_parse_bind, same]
      exact second value echo holds middle _ last gives

theorem Echoes.then {parse : Parse α} {next : α → Parse γ} {after : α → Parse δ}
    (each : ∀ value, Echoes (next value) (after value) further) :
    Echoes (parse >>= next) (parse >>= after) further := by
  have same : Echoes parse parse Eq := fun _ value _ gives => ⟨value, gives, rfl⟩
  exact same.bind fun value _ same => same ▸ each value

end Echoes

def positionalOf (parts : List Written) : List (Param × Option Expr) :=
  (parts.takeWhile (!·.isStar)).flatMap (·.given)

def keywordsOf (parts : List Written) : List (Param × Option Expr) :=
  (parts.dropWhile (!·.isStar)).flatMap (·.given)

theorem sorted_snoc (parts : List Written) (part : Written) :
    positionalOf (parts ++ [part]) =
        positionalOf parts ++ (if parts.any (·.isStar) then [] else part.given) ∧
      keywordsOf (parts ++ [part]) =
        keywordsOf parts ++ if parts.any (·.isStar) then part.given else [] := by
  induction parts with
  | nil => cases part <;> exact ⟨rfl, rfl⟩
  | cons first rest ih =>
    simp only [positionalOf, keywordsOf] at ih
    cases star : first.isStar <;>
      simp [positionalOf, keywordsOf, star, ih, -Written.isStar, -Written.given]

/-- What was made of the parts that were read. -/
structure Sorts (parts : List Written) (soFar : ParamsSoFar) : Prop where
  star : soFar.seenStar = parts.any (·.isStar)
  slash : soFar.seenSlash = false → soFar.params.posOnly = []
  positional : soFar.params.positional = (positionalOf parts).map (·.1)
  keywords : soFar.params.kwOnly = (keywordsOf parts).map (·.1)
  defaults : Trailing ((positionalOf parts).map (·.2)) soFar.params.defaults
  kwDefaults : soFar.params.kwDefaults = (keywordsOf parts).map (·.2)

variable {parts : List Written} {soFar : ParamsSoFar} (read : ReadExpr) (hints : Bool)

/-- A part without a parameter of its own. -/
theorem Sorts.pass {next : ParamsSoFar} {part : Written} (sorts : Sorts parts soFar)
    (none : part.given = []) (star : next.seenStar = (soFar.seenStar || part.isStar))
    (slash : next.seenSlash = false → next.params.posOnly = [])
    (positional : next.params.positional = soFar.params.positional)
    (keywords : next.params.kwOnly = soFar.params.kwOnly)
    (defaults : next.params.defaults = soFar.params.defaults)
    (kwDefaults : next.params.kwDefaults = soFar.params.kwDefaults) :
    Sorts (parts ++ [part]) next := by
  have same := sorted_snoc parts part
  rw [none, ite_self, append_nil, append_nil] at same
  exact
    { star := by rw [star, sorts.star, any_append, any_cons, any_nil, Bool.or_false]
      slash
      positional := by rw [positional, sorts.positional, same.1]
      keywords := by rw [keywords, sorts.keywords, same.2]
      defaults := by
        rw [defaults, same.1]
        exact sorts.defaults
      kwDefaults := by rw [kwDefaults, sorts.kwDefaults, same.2] }

/-- The names of parameters, each with whether a default is written for it. -/
def marked (parts : List (Param × Option Expr)) : List (String × Bool) :=
  parts.map fun part => (part.1.name, part.2.isSome)

end Parser

namespace Expr

variable {parts : List (Param × Option Expr)} {defaults : List Expr} (hints : Bool)

end Expr

namespace Hint

variable {m : Type → Type} [Monad m] [LawfulMonad m] [MonadExceptOf Stop m]

end Hint

end Stubwise
