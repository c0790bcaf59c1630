import Stubwise.Stub.Chain

namespace Stubwise

open List

/-- A name stands for a declaration that is no alias, or for an alias that leads on. -/
inductive Leads (resolve : String → Except Stop Decl) : Nat → String → Decl → Prop where
  | here {name : String} {decl : Decl} (found : resolve name = .ok decl)
      (plain : ∀ link, decl ≠ .aliasOf link) : Leads resolve 0 name decl
  | through {count : Nat} {name : String} {link : AliasDecl} {decl : Decl}
      (found : resolve name = .ok (.aliasOf link)) (rest : Leads resolve count link.target decl) :
      Leads resolve (count + 1) name decl

/-- Following aliases from a name ends at a declaration. -/
def Reaches (resolve : String → Except Stop Decl) (name : String) (decl : Decl) : Prop :=
  ∃ steps, Id.run (followWithin (fun name => pure (resolve name)) name steps [] name) = .ok decl

section

variable {resolve : String → Except Stop Decl} {name : String} {decl : Decl}

theorem Leads.count_unique {count other : Nat} {last : Decl} (leads : Leads resolve count name decl)
    (again : Leads resolve other name last) : count = other := by
  induction leads generalizing other with
  | here found plain =>
    cases again with
    | here => rfl
    | through link _ => exact absurd (Except.ok.inj (found.symm.trans link)) (plain _)
  | through found _ ih =>
    cases again with
    | here own plain => exact absurd (Except.ok.inj (own.symm.trans found)) (plain _)
    | through link more =>
      cases Decl.aliasOf.inj (Except.ok.inj (found.symm.trans link))
      rw [ih more]

section Steps

variable {seen : List String} (fresh : name ∉ seen) (start : String) (steps : Nat)
include fresh

theorem followWithin_alias {link : AliasDecl} (found : resolve name = .ok (.aliasOf link)) :
    Id.run (followWithin (fun name => pure (resolve name)) start (steps + 1) seen name) =
      Id.run (followWithin (fun name => pure (resolve name)) start steps (name :: seen) link.target) := by
  simp only [followWithin, contains_iff_mem, fresh, if_false, Id.run, bind, pure, found]

theorem followWithin_plain (plain : ∀ link, resolve name ≠ .ok (.aliasOf link)) :
    Id.run (followWithin (fun name => pure (resolve name)) start (steps + 1) seen name) =
      resolve name := by
  simp only [followWithin, contains_iff_mem, fresh, if_false, Id.run, bind, pure]

end Steps

/-- The names that were seen come before the current one, so that it is none of them. -/
theorem Leads.followed {count : Nat} (leads : Leads resolve count name decl) (start : String)
    {seen : List String} (before : ∀ other ∈ seen, ∃ more > count, Leads resolve more other decl) :
    Id.run (followWithin (fun name => pure (resolve name)) start (count + 1) seen name) =
      .ok decl := by
  have fresh : name ∉ seen := by
    intro member
    obtain ⟨more, greater, again⟩ := before name member
    exact absurd (leads.count_unique again) (by omega)
  induction leads generalizing seen with
  | here found plain =>
    rw [followWithin_plain fresh start 0 fun link same => ?_, found]
    exact plain link (Except.ok.inj (found.symm.trans same))
  | through found rest ih =>
    rename_i count name link decl
    rw [followWithin_alias fresh start (count + 1) found]
    have later : ∀ other ∈ name :: seen, ∃ more > count, Leads resolve more other decl := by
      intro other member
      rcases mem_cons.mp member with rfl | member
      · exact ⟨count + 1, Nat.lt_succ_self count, .through found rest⟩
      · obtain ⟨more, greater, again⟩ := before other member
        exact ⟨more, by omega, again⟩
    refine ih later fun member => ?_
    obtain ⟨more, greater, again⟩ := later _ member
    exact absurd (rest.count_unique again) (by omega)

theorem leads_of_followed {start : String} {steps : Nat} {seen : List String}
    (followed : Id.run (followWithin (fun name => pure (resolve name)) start steps seen name) =
      .ok decl) : ∃ count, Leads resolve count name decl := by
  induction steps generalizing seen name with
  | zero => cases followed
  | succ steps ih =>
    by_cases member : name ∈ seen
    · simp [followWithin, member, Id.run, pure] at followed
    · by_cases linked : ∃ link, resolve name = .ok (.aliasOf link)
      · obtain ⟨link, found⟩ := linked
        rw [followWithin_alias member start steps found] at followed
        obtain ⟨count, rest⟩ := ih followed
        exact ⟨count + 1, .through found rest⟩
      · have plain : ∀ link, resolve name ≠ .ok (.aliasOf link) := not_exists.mp linked
        rw [followWithin_plain member start steps plain] at followed
        exact ⟨0, .here followed fun link same => plain link (followed.trans (congrArg _ same))⟩

theorem reaches_iff_leads : Reaches resolve name decl ↔ ∃ count, Leads resolve count name decl :=
  ⟨fun ⟨_, followed⟩ => leads_of_followed followed, fun ⟨count, leads⟩ =>
    ⟨count + 1, leads.followed name (forall_mem_nil _)⟩⟩

theorem reaches_of_alias {link : AliasDecl} (found : resolve name = .ok (.aliasOf link)) :
    Reaches resolve name decl ↔ Reaches resolve link.target decl := by
  rw [reaches_iff_leads, reaches_iff_leads]
  constructor
  · rintro ⟨_, leads⟩
    cases leads with
    | here own plain => exact absurd (Except.ok.inj (own.symm.trans found)) (plain _)
    | through own rest =>
      cases Decl.aliasOf.inj (Except.ok.inj (found.symm.trans own))
      exact ⟨_, rest⟩
  · rintro ⟨count, leads⟩
    exact ⟨count + 1, .through found leads⟩

end

end Stubwise
