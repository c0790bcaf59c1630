import Stubwise.Fault

/-!
Work that is orderly: it gives only proper values, throws only proper stops, and leaves a proper
state behind wherever it found one.
-/

namespace Stubwise

open List

variable {α : Type} {δ : Type}

/-- What is asked of the values of a type. -/
class Propriety (α : Type) where
  proper : α → Prop

export Propriety (proper)

/-- Nothing is asked of values unless it is said. -/
instance (priority := low) noPropriety : Propriety α := ⟨fun _ => True⟩

instance [Propriety α] : Propriety (Option α) := ⟨fun option => ∀ a ∈ option, proper a⟩

instance [Propriety α] : Propriety (List α) := ⟨fun list => ∀ a ∈ list, proper a⟩

instance {α β : Type} [Propriety α] [Propriety β] : Propriety (α × β) :=
  ⟨fun pair => proper pair.1 ∧ proper pair.2⟩

/-- An outcome whose result meets a condition, and whose error is proper. -/
def Meets {ε α : Type} [Propriety ε] (post : α → Prop) : Except ε α → Prop
  | .ok a => post a
  | .error e => proper e

instance {ε α : Type} [Propriety ε] [Propriety α] : Propriety (Except ε α) := ⟨Meets proper⟩

class Proper {α : Type} [Propriety α] (a : α) : Prop where
  holds : proper a

/-- Types whose values are all proper. -/
class AllProper (α : Type) [Propriety α] : Prop where
  all : ∀ a : α, proper a

section Values

variable {ε α β : Type} [Propriety ε] [Propriety α] [Propriety β]

instance (priority := low) {γ : Type} : @AllProper γ noPropriety :=
  @AllProper.mk γ noPropriety fun _ => trivial

instance [every : AllProper α] : AllProper (Option α) := ⟨fun _ a _ => every.all a⟩

instance list_allProper [every : AllProper α] : AllProper (List α) := ⟨fun _ a _ => every.all a⟩

instance [first : AllProper α] [second : AllProper β] : AllProper (α × β) :=
  ⟨fun _ => ⟨first.all _, second.all _⟩⟩

instance (priority := low) [every : AllProper α] (a : α) : Proper a := ⟨every.all a⟩

instance (a : { a : α // proper a }) : Proper a.val := ⟨a.property⟩

instance none_proper : Proper (none : Option α) := ⟨fun _ found => absurd found (by simp)⟩

instance (a : α) [inner : Proper a] : Proper (some a) :=
  ⟨fun _ found => Option.mem_some.mp found ▸ inner.holds⟩

instance nil_proper : Proper ([] : List α) := ⟨forall_mem_nil _⟩

instance cons_proper (a : α) (rest : List α) [first : Proper a] [others : Proper rest] :
    Proper (a :: rest) :=
  ⟨forall_mem_cons.mpr ⟨first.holds, others.holds⟩⟩

instance (list rest : List α) [first : Proper list] [second : Proper rest] : Proper (list ++ rest) :=
  ⟨forall_mem_append.mpr ⟨first.holds, second.holds⟩⟩

instance (a : α) (b : β) [first : Proper a] [second : Proper b] : Proper (a, b) := ⟨first.holds, second.holds⟩

instance (a : α) [inner : Proper a] : Proper (Except.ok a : Except ε α) := ⟨inner.holds⟩

instance (e : ε) [inner : Proper e] : Proper (Except.error e : Except ε α) := ⟨inner.holds⟩

instance {condition : Prop} [Decidable condition] (yes no : α) [first : Proper yes]
    [second : Proper no] : Proper (if condition then yes else no) := by
  split
  · exact first
  · exact second

instance (f : α → β) (list : List α) [each : ∀ a : { a : α // proper a }, Proper (f a)]
    [all : Proper list] : Proper (list.map f) :=
  ⟨forall_mem_map.mpr fun a listed => (each ⟨a, all.holds a listed⟩).holds⟩

instance (f : α → Option β) (list : List α)
    [each : ∀ a : { a : α // proper a }, Proper (f a)] [all : Proper list] :
    Proper (list.filterMap f) :=
  ⟨forall_mem_filterMap.mpr fun a listed => (each ⟨a, all.holds a listed⟩).holds⟩

instance (f : α → List β) (list : List α)
    [each : ∀ a : { a : α // proper a }, Proper (f a)] [all : Proper list] :
    Proper (list.flatMap f) :=
  ⟨forall_mem_flatMap.mpr fun a listed => (each ⟨a, all.holds a listed⟩).holds⟩

instance (list : List α) [all : Proper list] : Proper list.dropLast :=
  ⟨fun a member => all.holds a (list.dropLast_subset member)⟩

instance (list : List α) (default : α) [all : Proper list] [last : Proper default] :
    Proper (list.getLastD default) where
  holds := by
    cases list with
    | nil => exact last.holds
    | cons a rest => exact all.holds _ (getLast_mem (cons_ne_nil a rest))

instance (option : Option α) (default : α) [inner : Proper option]
    [other : Proper default] : Proper (option.getD default) where
  holds := by
    cases option with
    | none => exact other.holds
    | some a => exact inner.holds a rfl

instance (option other : Option α) [first : Proper option] [second : Proper other] :
    Proper (option.or other) := by
  cases option with
  | none => exact second
  | some => exact first

instance (f : α → β) (outcome : Except ε α)
    [each : ∀ a : { a : α // proper a }, Proper (f a)] [inner : Proper outcome] :
    Proper (outcome.map f) where
  holds := by
    cases outcome with
    | ok a => exact (each ⟨a, inner.holds⟩).holds
    | error => exact inner.holds

instance [Propriety δ] (f : ε → δ) (outcome : Except ε α)
    [each : ∀ e : { e : ε // proper e }, Proper (f e)] [inner : Proper outcome] :
    Proper (outcome.mapError f) where
  holds := by
    cases outcome with
    | ok => exact inner.holds
    | error e => exact (each ⟨e, inner.holds⟩).holds

instance (option : Option α) [inner : Proper option] : Proper option.toList :=
  ⟨fun a found => inner.holds a (Option.mem_toList.mp found)⟩

theorem Proper.of_mem {list : List α} [all : Proper list] {a : α} (member : a ∈ list) : Proper a :=
  ⟨all.holds a member⟩

theorem Proper.of_eq {a b : α} [inner : Proper a] (same : a = b) : Proper b := same ▸ inner

theorem Proper.of_some {option : Option α} [inner : Proper option] {a : α}
    (found : option = some a) : Proper a :=
  ⟨inner.holds a found⟩

end Values

/-- Work in a monad of which it can be said what it gives. -/
class Accountable (m : Type → Type) [Monad m] where
  Yields {α : Type} (post : α → Prop) (run : m α) : Prop
  pure {α : Type} {post : α → Prop} {a : α} (holds : post a) : Yields post (Pure.pure a)
  bind {α β : Type} {middle : α → Prop} {post : β → Prop} {run : m α} {next : α → m β}
    (first : Yields middle run) (second : ∀ a, middle a → Yields post (next a)) :
    Yields post (run >>= next)

/-- Work that gives a proper value. -/
class Orderly {m : Type → Type} [Monad m] [Accountable m] {α : Type} [Propriety α] (run : m α) :
    Prop where
  yields : Accountable.Yields proper run

section Yields

variable {m : Type → Type} [Monad m] [Accountable m] {α β : Type}

theorem orderly_from [Propriety β] {middle : α → Prop} {run : m α} {next : α → m β}
    (first : Accountable.Yields middle run) (second : ∀ a, middle a → Orderly (next a)) :
    Orderly (run >>= next) :=
  ⟨Accountable.bind first fun a holds => (second a holds).yields⟩

theorem yields_after [Propriety α] {post : β → Prop} {run : m α} {next : α → m β}
    [first : Orderly run] (second : ∀ a, [Proper a] → Accountable.Yields post (next a)) :
    Accountable.Yields post (run >>= next) :=
  Accountable.bind first.yields fun a holds => @second a ⟨holds⟩

theorem yields_mapM [LawfulMonad m] {post : β → Prop} {f : α → m β} {list : List α}
    (each : ∀ a ∈ list, Accountable.Yields post (f a)) :
    Accountable.Yields (fun given => ∀ b ∈ given, post b) (list.mapM f) := by
  induction list with
  | nil => exact Accountable.pure (forall_mem_nil _)
  | cons a _ ih =>
    obtain ⟨here, later⟩ := forall_mem_cons.mp each
    rw [mapM_cons]
    refine Accountable.bind here fun first holds => Accountable.bind (ih later) fun others all => ?_
    exact Accountable.pure (forall_mem_cons.mpr ⟨holds, all⟩)

end Yields

section Rules

variable {m : Type → Type} [Monad m] [Accountable m] {ε α β γ : Type}
  [Propriety ε] [Propriety α] [Propriety β] [Propriety γ]

instance pure_orderly (a : α) [inner : Proper a] : Orderly (pure a : m α) := ⟨Accountable.pure inner.holds⟩

theorem orderly_bind {run : m α} {next : α → m β} [first : Orderly run]
    (second : ∀ a, [Proper a] → Orderly (next a)) : Orderly (run >>= next) :=
  ⟨Accountable.bind first.yields fun a holds => (@second a ⟨holds⟩).yields⟩

instance {run : m α} {next : α → m β} [Orderly run]
    [second : ∀ a : { a : α // proper a }, Orderly (next a)] : Orderly (run >>= next) :=
  orderly_bind fun a given => second ⟨a, given.holds⟩

instance {condition : Prop} [Decidable condition] {yes no : m α}
    [first : Orderly yes] [second : Orderly no] : Orderly (if condition then yes else no) := by
  split
  · exact first
  · exact second

instance [LawfulMonad m] {run : m α} {f : α → β} [Orderly run]
    [each : ∀ a : { a : α // proper a }, Proper (f a)] : Orderly (f <$> run) := by
  rw [map_eq_pure_bind]
  exact orderly_bind fun a given => @pure_orderly _ _ _ _ _ (f a) (each ⟨a, given.holds⟩)

instance [LawfulMonad m] {f : δ → m β} [each : ∀ d, Orderly (f d)]
    (list : List δ) : Orderly (list.mapM f) :=
  ⟨yields_mapM fun d _ => (each d).yields⟩

theorem orderly_forM {f : δ → m Unit} {list : List δ} (each : ∀ d ∈ list, Orderly (f d)) :
    Orderly (list.forM f) := by
  induction list with
  | nil => exact pure_orderly ()
  | cons _ _ ih =>
    obtain ⟨first, others⟩ := forall_mem_cons.mp each
    exact orderly_bind fun _ _ => ih others

instance {f : δ → m Unit} [each : ∀ d, Orderly (f d)] (list : List δ) : Orderly (list.forM f) :=
  orderly_forM fun d _ => each d

theorem orderly_except {run : m (Except ε α)} {next : Except ε α → m β} [Orderly run]
    (ok : ∀ a, [Proper a] → Orderly (next (.ok a)))
    (error : ∀ e, [Proper e] → Orderly (next (.error e))) : Orderly (run >>= next) := by
  refine orderly_bind fun result outcome => ?_
  cases result with
  | ok a => exact @ok a ⟨outcome.holds⟩
  | error e => exact @error e ⟨outcome.holds⟩

theorem orderly_option {run : m (Option α)} {next : Option α → m β} [Orderly run]
    (absent : Orderly (next none)) (found : ∀ a, [Proper a] → Orderly (next (some a))) :
    Orderly (run >>= next) := by
  refine orderly_bind fun result outcome => ?_
  cases result with
  | none => exact absent
  | some a => exact @found a ⟨outcome.holds a rfl⟩

theorem orderly_pair {run : m (α × γ)} {next : α × γ → m β} [Orderly run]
    (both : ∀ a c, [Proper a] → [Proper c] → Orderly (next (a, c))) : Orderly (run >>= next) := by
  refine orderly_bind fun result outcome => ?_
  exact @both result.1 result.2 ⟨outcome.holds.1⟩ ⟨outcome.holds.2⟩

instance (priority := low) {run : m (Except ε α)} {next : Except ε α → m β}
    [Orderly run] [ok : ∀ a : { a : α // proper a }, Orderly (next (.ok a))]
    [error : ∀ e : { e : ε // proper e }, Orderly (next (.error e))] : Orderly (run >>= next) :=
  orderly_except (fun a given => ok ⟨a, given.holds⟩) (fun e given => error ⟨e, given.holds⟩)

instance (priority := low) {run : m (Option α)} {next : Option α → m β}
    [Orderly run] [absent : Orderly (next none)]
    [found : ∀ a : { a : α // proper a }, Orderly (next (some a))] : Orderly (run >>= next) :=
  orderly_option absent fun a given => found ⟨a, given.holds⟩

instance (priority := low) {run : m (α × γ)} {next : α × γ → m β} [Orderly run]
    [both : ∀ (a : { a : α // proper a }) (c : { c : γ // proper c }), Orderly (next (a, c))] :
    Orderly (run >>= next) :=
  orderly_pair fun a c first second => both ⟨a, first.holds⟩ ⟨c, second.holds⟩

end Rules

section Monads

variable {ε σ : Type} [Propriety ε] [Propriety σ] {m : Type → Type} [Monad m] [Accountable m]

instance : Accountable (Except ε) where
  Yields := Meets
  pure := id
  bind {_ _ _ _ run _} first second := by
    cases run with
    | ok a => exact second a first
    | error => exact first

instance [Propriety α] (a : α) [inner : Proper a] : Orderly (Except.ok a : Except ε α) := ⟨inner.holds⟩

instance [Propriety α] (e : ε) [inner : Proper e] : Orderly (Except.error e : Except ε α) := ⟨inner.holds⟩

theorem Orderly.proper_error [Propriety α] {outcome : Except ε α}
    [known : Orderly outcome] {e : ε} (failed : outcome = .error e) : Proper e where
  holds := by
    have outcome_meets : Meets proper outcome := known.yields
    rw [failed] at outcome_meets
    exact outcome_meets

instance : Accountable Id where
  Yields post run := post run.run
  pure := id
  bind first second := second _ first

instance : Accountable (StateM σ) where
  Yields post run := ∀ state, proper state → post (run.run state).1 ∧ proper (run.run state).2
  pure holds _ before := ⟨holds, before⟩
  bind first second state before := by
    obtain ⟨given, between⟩ := first state before
    exact second _ given _ between

instance : Orderly (get : StateM σ σ) := ⟨fun _ before => ⟨before, before⟩⟩

instance : Accountable (ExceptT ε m) where
  Yields post run := Accountable.Yields (Meets post) run.run
  pure holds := Accountable.pure holds
  bind first second := by
    refine Accountable.bind first fun result holds => ?_
    cases result with
    | ok a => exact second a holds
    | error => exact Accountable.pure holds

instance : Accountable (OptionT m) where
  Yields post run := Accountable.Yields (fun result => ∀ a ∈ result, post a) run.run
  pure holds := Accountable.pure fun _ found => Option.mem_some.mp found ▸ holds
  bind first second := by
    refine Accountable.bind first fun result holds => ?_
    cases result with
    | some a => exact second a (holds a rfl)
    | none => exact Accountable.pure fun _ found => absurd found (by simp)

section

variable {α : Type} [Propriety α]

instance {run : m α} [inner : Orderly run] : Orderly (liftM run : OptionT m α) where
  yields := by
    exact Accountable.bind inner.yields fun a holds =>
      Accountable.pure fun b found => Option.mem_some.mp found ▸ holds

instance : Orderly (failure : OptionT m α) where
  yields := by
    exact Accountable.pure fun a found => absurd found (by simp)

instance {run : OptionT m α} [inner : Orderly run] : Orderly run.run := ⟨inner.yields⟩

end

end Monads

end Stubwise
