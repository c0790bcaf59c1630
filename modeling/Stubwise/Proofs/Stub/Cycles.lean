import Stubwise.Proofs.Stub.Following
import Mathlib.Data.List.Nodup

namespace Stubwise

open List

section

variable (resolve : String → Except Stop Decl) (start : String)

/-- The name that a chain of aliases has come to after some steps. -/
def chainAt : Nat → Option String
  | 0 => some start
  | count + 1 => (chainAt count).bind fun name =>
    match resolve name with
    | .ok (.aliasOf link) => some link.target
    | _ => none

def ChainRevisits : Prop :=
  ∃ first later name, first < later ∧ chainAt resolve start first = some name ∧
    chainAt resolve start later = some name

/-- What the provider answers for the last name of the chain, which is no alias, or, just if the
chain comes back to a name, the fault that reports the cycle. -/
def ChainEndsWith (outcome : Except Stop Decl) : Prop :=
  (¬ ChainRevisits resolve start ∧ ∃ count name, chainAt resolve start count = some name ∧
      resolve name = outcome ∧ ∀ link, outcome ≠ .ok (.aliasOf link)) ∨
    ChainRevisits resolve start ∧
      outcome = .error (.fault (.coded .stubNotFound s!"alias cycle through {start}"))

/-- The chain has come to a name past the names in `seen`, which are all different. -/
structure Passed (seen : List String) (name : String) : Prop where
  here : chainAt resolve start seen.length = some name
  visited : ∀ other, other ∈ seen ↔ ∃ count < seen.length, chainAt resolve start count = some other
  nodup : seen.Nodup
  apart : ∀ first later other, first < later → later < seen.length →
    chainAt resolve start first = some other → chainAt resolve start later ≠ some other

variable {resolve start} {seen : List String} {name : String}

theorem Passed.on (passed : Passed resolve start seen name) (fresh : name ∉ seen)
    {link : AliasDecl} (found : resolve name = .ok (.aliasOf link)) :
    Passed resolve start (name :: seen) link.target where
  here := by simp only [length_cons, chainAt, passed.here, Option.bind_some, found]
  visited other := by
    rw [mem_cons, passed.visited, length_cons, Nat.exists_lt_succ_right, passed.here, or_comm,
      Option.some_inj, eq_comm]
  nodup := nodup_cons.mpr ⟨fresh, passed.nodup⟩
  apart first later other before within same again := by
    rcases Nat.lt_succ_iff_lt_or_eq.mp within with within | rfl
    · exact passed.apart first later other before within same again
    · cases passed.here.symm.trans again
      exact fresh ((passed.visited _).mpr ⟨first, before, same⟩)

theorem chainAt_none_of_le {count more : Nat} (ended : chainAt resolve start count = none)
    (le : count ≤ more) : chainAt resolve start more = none := by
  induction le with
  | refl => exact ended
  | step _ ih => rw [chainAt, ih, Option.bind_none]

theorem Passed.not_revisits (passed : Passed resolve start seen name) (fresh : name ∉ seen)
    (plain : ∀ link, resolve name ≠ .ok (.aliasOf link)) : ¬ ChainRevisits resolve start := by
  rintro ⟨first, later, other, before, same, again⟩
  have ended : chainAt resolve start (seen.length + 1) = none := by
    rw [chainAt, passed.here, Option.bind_some]
    split
    · exact absurd ‹_› (plain _)
    · rfl
  rcases Nat.lt_trichotomy later seen.length with within | rfl | beyond
  · exact passed.apart first later other before within same again
  · cases passed.here.symm.trans again
    exact fresh ((passed.visited _).mpr ⟨first, before, same⟩)
  · cases again.symm.trans (chainAt_none_of_le ended beyond)

variable {targets : List String}
  (known : ∀ name link, resolve name = .ok (.aliasOf link) → link.target ∈ targets)
include known

theorem mem_targets_of_chainAt {count : Nat} (reached : chainAt resolve start count = some name) :
    name ∈ start :: targets := by
  cases count with
  | zero => exact mem_cons.mpr (.inl (Option.some.inj reached).symm)
  | succ =>
    obtain ⟨before, _, led⟩ := Option.bind_eq_some_iff.mp reached
    split at led
    · cases led
      exact mem_cons_of_mem _ (known _ _ ‹_›)
    · cases led

theorem Passed.length_le (passed : Passed resolve start seen name) : seen.length ≤ targets.length + 1 := by
  suffices inside : seen ⊆ start :: targets from passed.nodup.length_le_of_subset inside
  intro other member
  obtain ⟨count, _, reached⟩ := (passed.visited other).mp member
  exact mem_targets_of_chainAt known reached

/-- One more name is seen with every step, and all of them are targets but the first. -/
theorem Passed.followWithin_ends {steps : Nat} (passed : Passed resolve start seen name)
    (enough : targets.length + 1 < seen.length + steps) :
    ChainEndsWith resolve start
      (Id.run (followWithin (fun name => pure (resolve name)) start steps seen name)) := by
  induction steps generalizing seen name with
  | zero => exact absurd (passed.length_le known) (by omega)
  | succ steps ih =>
    by_cases again : name ∈ seen
    · obtain ⟨count, before, same⟩ := (passed.visited name).mp again
      refine .inr ⟨⟨count, _, name, before, same, passed.here⟩, ?_⟩
      simp only [followWithin, contains_iff_mem, again, if_true, Id.run, pure]
    · by_cases linked : ∃ link, resolve name = .ok (.aliasOf link)
      · obtain ⟨link, found⟩ := linked
        rw [followWithin_alias again start steps found]
        exact ih (passed.on again found) (by rw [length_cons]; omega)
      · have plain := not_exists.mp linked
        rw [followWithin_plain again start steps plain]
        exact .inl ⟨passed.not_revisits again plain, _, name, passed.here, rfl, plain⟩

/-- Aliases with finitely many targets lead to what is no alias, or are reported as a cycle. -/
theorem following_ends (start : String) :
    (∀ steps > targets.length + 1, ChainEndsWith resolve start
      (Id.run (followWithin (fun name => pure (resolve name)) start steps [] start))) ∧
    (targets.length + 1 < StubTree.maxAliasSteps → ChainEndsWith resolve start
      (Id.run (followAliases (fun name => pure (resolve name)) start))) := by
  have first : Passed resolve start [] start :=
    ⟨rfl, by simp, nodup_nil, by simp⟩
  have ends : ∀ steps > targets.length + 1, ChainEndsWith resolve start
      (Id.run (followWithin (fun name => pure (resolve name)) start steps [] start)) :=
    fun steps enough => first.followWithin_ends known (by simpa using enough)
  exact ⟨ends, ends _⟩

end

/-- An alias that leads into a cycle of two others. -/
def lasso (name : String) : Except Stop Decl :=
  match name with
  | "q" => .ok (.aliasOf { name, target := "a" })
  | "a" => .ok (.aliasOf { name, target := "b" })
  | _ => .ok (.aliasOf { name, target := "a" })

theorem following_ends_in_lasso :
    (∀ name link, lasso name = .ok (.aliasOf link) → link.target ∈ ["a", "b"]) ∧
      ChainEndsWith lasso "q" (Id.run (followAliases (fun name => pure (lasso name)) "q")) := by
  have known : ∀ name link, lasso name = .ok (.aliasOf link) → link.target ∈ ["a", "b"] := by
    intro name link found
    unfold lasso at found
    split at found <;> cases found <;> simp
  exact ⟨known, (following_ends known "q").2 (by decide)⟩

end Stubwise
