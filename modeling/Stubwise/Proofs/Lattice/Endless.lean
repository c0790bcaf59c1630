import Stubwise.Proofs.Lattice.Steady

/-!
Where questions end. Without protocols subtyping, the search for a class and matching always come to
an end.
-/

namespace Stubwise

open Subst Ty World Registry

/-- Without protocols every question about types without instances is answered, and the registry
stays as it is. -/
theorem questions_end {registry : Registry} (plain : registry.nominal) {a b : Ty}
    (left : a.objectFree) (right : b.objectFree) (target : ClassRef)
    {bindings : Subst} {formal concrete : Option Ty} (bound : bindings.objectFree)
    (formalFree : optionObjectFree formal) (concreteFree : optionObjectFree concrete) :
    (∃ holds, (world.isSubtype a b).run registry = .ok (holds, registry)) ∧
    (∃ args, (world.asInstanceOf a target).run registry = .ok (args, registry)) ∧
    ∃ result, (world.unify bindings formal concrete).run registry =
      .ok (result, registry) := by
  refine ⟨?_, ?_, ?_⟩
  · obtain ⟨holds, _, ran⟩ := subtype_gives plain a b left right
    exact ⟨holds, ran⟩
  · obtain ⟨args, _, ran⟩ := asInstanceOf_gives plain left target
    exact ⟨args, ran⟩
  · obtain ⟨result, _, ran⟩ := unify_matches plain bound formalFree concreteFree
    exact ⟨result, ran⟩

theorem questions_end_for_classes :
    let pairs : Ty := .app (inModule "Iter") [.tuple [.var "V" none, .any]]
    let counts : Ty := .app (inModule "Box") [.tuple [.strType, .builtin "int"]]
    (∃ holds, (world.isSubtype counts pairs).run boxes = .ok (holds, boxes)) ∧
    (∃ args, (world.asInstanceOf counts (inModule "Iter")).run boxes = .ok (args, boxes)) ∧
    ∃ result, (world.unify [] (some pairs) (some counts)).run boxes = .ok (result, boxes) :=
  questions_end rfl rfl rfl (inModule "Iter") rfl rfl rfl

namespace Growing

def protocolRef : ClassRef :=
  { module := "", name := "Steps" }

def wrapRef : ClassRef :=
  { module := "", name := "Wrap" }

def stepperRef : ClassRef :=
  { module := "", name := "Stepper" }

/-- A protocol whose member gives the protocol again, and a class whose member gives the class at a
larger argument. -/
def registry : Registry where
  classes := [
    ("Steps", { cls := { ref := protocolRef, params := [{ name := "T" }], isProtocol := true },
                members := [("next", .app protocolRef [.var "T" none])] }),
    ("Stepper", { cls := { ref := stepperRef, params := [{ name := "T" }] },
                  members := [("next", .app stepperRef [.app wrapRef [.var "T" none]])] })]

def wrapped : Nat → Ty
  | 0 => .builtin "int"
  | n + 1 => .app wrapRef [wrapped n]

def stepper (n : Nat) : Ty :=
  .app stepperRef [wrapped n]

def during (checks : Std.TreeSet String) : Registry :=
  { registry with assumptions := checks }

section Arguments

theorem wrapped_objectFree (n : Nat) : (wrapped n).objectFree = true := by
  induction n with
  | zero => rfl
  | succ _ ih => simp [wrapped, Ty.objectFree, Ty.allObjectFree, ih]

theorem mapVars_wrapped (image : String → Option Ty) (n : Nat) : (wrapped n).mapVars image = wrapped n := by
  induction n with
  | zero => rfl
  | succ _ ih => exact congrArg (app wrapRef [·]) ih

theorem replaceSelf_wrapped (replacement : Ty) (n : Nat) :
    replaceSelf replacement (wrapped n) = wrapped n := by
  induction n with
  | zero => rfl
  | succ _ ih => exact congrArg (app wrapRef [·]) ih

theorem wrapped_apart (n : Nat) : (wrapped (n + 1)).identical (wrapped n) = false := by
  induction n with
  | zero => rfl
  | succ _ ih =>
    rw [wrapped] at ih ⊢
    simp [identical, allIdentical, wrapped, ih]

theorem stepper_apart (n : Nat) : (stepper (n + 1)).identical (stepper n) = false := by
  simp [stepper, identical, allIdentical, wrapped_apart]

theorem replaceSelf_stepper (replacement : Ty) (n : Nat) :
    replaceSelf replacement (stepper n) = stepper n :=
  congrArg (app stepperRef [·]) (replaceSelf_wrapped replacement n)

theorem wrapped_not_var (n : Nat) (name : String) : (wrapped n).isVarNamed name = false := by
  cases n <;> rfl

theorem apply_var (n : Nat) : apply [("T", wrapped n)] (.var "T" none) = wrapped n := by
  have found : imageOf [("T", wrapped n)] [] "T" = some (wrapped n) := by
    simp [imageOf, Table.get?, wrapped_not_var]
  show ((imageOf [("T", wrapped n)] [] "T").map _).getD _ = _
  rw [found]
  exact mapVars_wrapped _ n

/-- What a check that is in progress is known by. -/
def key (n : Nat) : String :=
  (stepper n).text ++ "~" ++ protocolRef.qualName

theorem wrapped_text_length (n : Nat) : (wrapped n).text.length = 3 + 6 * n := by
  induction n with
  | zero => rfl
  | succ n ih =>
    have text : (wrapped (n + 1)).text = "Wrap" ++ "[" ++ (wrapped n).text ++ "]" := rfl
    rw [text]
    simp only [String.length_append, ih]
    have : "Wrap".length = 4 ∧ "[".length = 1 ∧ "]".length = 1 := by decide
    omega

theorem key_injective {n m : Nat} (same : key n = key m) : n = m := by
  have length (n : Nat) : (key n).length = 18 + 6 * n := by
    have text : key n = "Stepper" ++ "[" ++ (wrapped n).text ++ "]" ++ "~" ++ "Steps" := rfl
    rw [text]
    simp only [String.length_append, wrapped_text_length]
    have : "Stepper".length = 7 ∧ "[".length = 1 ∧ "]".length = 1 ∧ "~".length = 1 ∧
        "Steps".length = 5 := by decide
    omega
  have := length n
  have := length m
  rw [same] at *
  omega

end Arguments

section Checking

variable {conforms : Conforms Run} {checks : Std.TreeSet String}

def proto : Class :=
  { ref := protocolRef, params := [{ name := "T" }], isProtocol := true }

theorem names_run :
    (world.protocolNames (maxBaseDepth + 1) proto []).run (during checks) =
      .ok (["next"], during checks) :=
  rfl

theorem wanted_run :
    (world.memberWithin "next" maxBaseDepth protocolRef [.var "T" none] []).run
        (during checks) =
      .ok ((some (.ok { member := .app protocolRef [.var "T" none],
                        owner := .app protocolRef [.var "T" none] }), ["Steps"]), during checks) :=
  rfl

theorem upcast_run (n : Nat) :
    (world.upcastClass stepperRef [wrapped n] protocolRef).run (during checks) =
      .ok (none, during checks) :=
  rfl

theorem apply_run {t result : Ty} {n : Nat} (free : t.objectFree)
    (applied : apply [("T", wrapped n)] t = result) :
    (world.apply [("T", wrapped n)] t).run (during checks) = .ok (result, during checks) := by
  have images : objectFree [("T", wrapped n)] = true := by
    simp [Subst.objectFree, wrapped_objectFree]
  obtain ⟨value, same, ran⟩ := @World.apply_gives (during checks) _ _ images free
  rw [ran, same, applied]

theorem owned_run (n : Nat) :
    (world.memberWithin "next" (maxBaseDepth + 1) stepperRef [wrapped n] []).run
        (during checks) =
      .ok ((some (.ok { member := stepper (n + 1), owner := stepper n }), ["Stepper"]), during checks) := by
  have looked : (world.lookup stepperRef).run (during checks) =
      .ok (.ok { ref := stepperRef, params := [{ name := "T" }] }, during checks) :=
    rfl
  have owned : (world.ownMember { ref := stepperRef, params := [{ name := "T" }] }
      "next").run (during checks) =
      .ok (.ok (some (.app stepperRef [.app wrapRef [.var "T" none]])), during checks) :=
    rfl
  have owner : (world.apply [("T", wrapped n)] (.app stepperRef [.var "T" none])).run
      (during checks) = .ok (stepper n, during checks) :=
    apply_run rfl (congrArg (fun t => app stepperRef [t]) (apply_var n))
  have member : (world.apply [("T", wrapped n)]
      (.app stepperRef [.app wrapRef [.var "T" none]])).run (during checks) =
      .ok (stepper (n + 1), during checks) :=
    apply_run rfl (congrArg (fun t => app stepperRef [.app wrapRef [t]]) (apply_var n))
  exact (run_bind_of_ok looked).trans ((run_bind_of_ok owner).trans
    ((run_bind_of_ok owned).trans (run_bind_of_ok member)))

theorem got_run (n : Nat) :
    (world.member conforms "next" (stepper n)).run (during checks) =
      .ok (.ok { member := stepper (n + 1), owner := stepper n }, during checks) := by
  have found : (world.classMember "next" stepperRef [wrapped n]).run (during checks) =
      .ok (some (.ok { member := stepper (n + 1), owner := stepper n }), during checks) := by
    rw [classMember, run_bind_of_ok (owned_run n)]
    rfl
  exact run_bind_of_ok found

theorem upcast_endless {n : Nat}
    (inner : (conforms (stepper n) protocolRef).run (during checks) = .error .endless) :
    (world.upcast conforms (stepper n) protocolRef).run (during checks) =
      .error .endless :=
  (run_bind_of_ok (upcast_run n)).trans inner

theorem matched_endless {n : Nat}
    (inner : (conforms (stepper n) protocolRef).run (during checks) = .error .endless) :
    (world.matchTypes conforms [] (some (.app protocolRef [.var "T" none]))
        (some (stepper n))).run (during checks) = .error .endless :=
  run_bind_of_error (upcast_endless inner)

theorem checkMember_endless {n : Nat}
    (inner : (conforms (stepper (n + 1)) protocolRef).run (during checks) = .error .endless) :
    (world.checkMember conforms proto protocolRef (stepper n) false [] "next").run
      (during checks) = .error .endless := by
  refine (run_bind_of_ok wanted_run).trans ((run_bind_of_ok (got_run n)).trans ?_)
  have result : replaceSelf (stepper n) (stepper (n + 1)).memberResult = stepper (n + 1) :=
    replaceSelf_stepper _ _
  dsimp only
  rw [result, stepper_apart]
  exact run_bind_of_error (matched_endless inner)

/-- A check of the class goes on to a check at the next argument, which is not in progress. -/
theorem conformsWithin_endless (depth n : Nat) (fresh : ∀ m, n ≤ m → checks.contains (key m) = false) :
    (world.conformsWithin depth (stepper n) protocolRef).run (during checks) = .error .endless := by
  induction depth generalizing n checks with
  | zero => rfl
  | succ depth ih =>
    have next := @ih (checks.insert (key n)) (n + 1) fun m later => by
      rw [Std.TreeSet.contains_insert, fresh m (by omega), Bool.or_false, beq_eq_false_iff_ne]
      intro same
      have := key_injective (Std.LawfulEqCmp.eq_of_compare same)
      omega
    have looked : (world.lookup protocolRef).run (during checks) = .ok (.ok proto, during checks) := rfl
    have known : world.assumptions.run (during checks) = .ok (checks, during checks) := rfl
    have started : (world.setAssumptions (checks.insert (key n))).run (during checks) =
        .ok ((), during (checks.insert (key n))) :=
      rfl
    have failed : (world.checkProtocol (world.conformsWithin depth) proto
        (stepper n) protocolRef).run (during (checks.insert (key n))) = .error .endless := by
      refine (run_bind_of_ok names_run).trans (run_bind_of_error ?_)
      exact run_bind_of_error (checkMember_endless next)
    refine (run_bind_of_ok looked).trans ((run_bind_of_ok known).trans ?_)
    have unchecked : checks.contains ((stepper n).text ++ "~" ++ protocolRef.qualName) = false :=
      fresh n (Nat.le_refl n)
    rw [unchecked]
    exact (run_bind_of_ok started).trans (run_bind_of_error failed)

end Checking

/-- The checks of the growing class have no end, however many of them may be in progress; so none
of the questions that lead to them is answered. -/
theorem checks_never_end :
    (∀ depth, (world.conformsWithin depth (stepper 0) protocolRef).run registry =
      .error .endless) ∧
    (world.isSubtype (stepper 0) (.cls protocolRef)).run registry = .error .endless ∧
    (world.asInstanceOf (stepper 0) protocolRef).run registry = .error .endless ∧
    (world.unify [] (some (.app protocolRef [.var "T" none])) (some (stepper 0))).run
      registry = .error .endless := by
  have start : registry = during {} := rfl
  have endless (depth : Nat) : (world.conformsWithin depth (stepper 0) protocolRef).run
      (during {}) = .error .endless :=
    conformsWithin_endless depth 0 fun _ _ => Std.TreeSet.contains_emptyc
  have upcast : (world.asInstanceOf (stepper 0) protocolRef).run (during {}) =
      .error .endless :=
    upcast_endless (endless maxConformance)
  refine ⟨endless, ?_, upcast, matched_endless (endless maxConformance)⟩
  rw [isSubtype, stepper, subtype]
  · exact run_bind_of_error upcast
  all_goals simp

end Growing

end Stubwise
