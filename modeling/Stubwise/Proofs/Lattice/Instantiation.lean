import Stubwise.Proofs.Lattice.Steady
import Stubwise.Proofs.Ty.Ways

/-!
Members of generic classes. A member is given for the arguments of the type it is asked of, by
applying the substitution of the parameters.
-/

namespace Stubwise

open List World

namespace Ty

section Agreement

variable {image other : String → Option Ty}

/-- Two maps do the same to a leaf: they put the same type in the place of a variable, which stays
where it has no image. -/
def AgreeAt (image other : String → Option Ty) : Leaf → Prop
  | .var name bound => (image name).getD (var name bound) = (other name).getD (var name bound)
  | .object _ _ => True

mutual

theorem mapVars_congr : ∀ t : Ty, (∀ leaf ∈ t.leaves, AgreeAt image other leaf) →
    t.mapVars image = t.mapVars other
  | any, _ | cls _, _ | literal _, _ | module _, _ | object _ _, _ => rfl
  | var name bound, agree => agree (.var name bound) (mem_singleton_self _)
  | app ref args, agree => congrArg (app ref) (mapVarsAll_congr args agree)
  | tuple elements, agree => congrArg tuple (mapVarsAll_congr elements agree)
  | union arms, agree => congrArg unionOf (mapVarsAll_congr arms agree)
  | func ⟨name, overloads, decorators⟩, agree =>
    congrArg (func ⟨name, ·, decorators⟩) (mapVarsOverloads_congr overloads agree)
  | method receiver owner name ⟨plain, overloads, decorators⟩, agree => by
    simp only [leaves, forall_mem_append] at agree
    have outer := congrArg₂ (method · · name ⟨plain, ·, decorators⟩)
      (mapVars_congr receiver agree.1.1) (mapVars_congr owner agree.1.2)
    exact (congr outer (mapVarsOverloads_congr overloads agree.2) :)
  | type inner, agree => congrArg type (mapVars_congr inner agree)

theorem mapVarsAll_congr : ∀ types : List Ty, (∀ leaf ∈ leavesAll types, AgreeAt image other leaf) →
      mapVarsAll image types = mapVarsAll other types
  | [], _ => rfl
  | t :: rest, agree => by
    simp only [leavesAll, forall_mem_append] at agree
    exact congrArg₂ cons (mapVars_congr t agree.1) (mapVarsAll_congr rest agree.2)

theorem mapVarsOption_congr : ∀ type : Option Ty, (∀ leaf ∈ leavesOption type, AgreeAt image other leaf) →
      mapVarsOption image type = mapVarsOption other type
  | none, _ => rfl
  | some t, agree => congrArg some (mapVars_congr t agree)

theorem mapVarsOverloads_congr : ∀ overloads : List Signature,
    (∀ leaf ∈ leavesOverloads overloads, AgreeAt image other leaf) →
      mapVarsOverloads image overloads = mapVarsOverloads other overloads
  | [], _ => rfl
  | ⟨params, returns, body⟩ :: rest, agree => by
    simp only [leavesOverloads, forall_mem_append] at agree
    exact congrArg₂ cons (congrArg₂ (Signature.mk · · body) (mapVarsParams_congr params agree.1.1)
      (mapVarsOption_congr returns agree.1.2)) (mapVarsOverloads_congr rest agree.2)

theorem mapVarsParams_congr : ∀ params : List Formal,
    (∀ leaf ∈ leavesParams params, AgreeAt image other leaf) →
      mapVarsParams image params = mapVarsParams other params
  | [], _ => rfl
  | ⟨name, declared, kind, hasDefault⟩ :: rest, agree => by
    simp only [leavesParams, forall_mem_append] at agree
    exact congrArg₂ cons (congrArg (Formal.mk name · kind hasDefault)
      (mapVarsOption_congr declared agree.1)) (mapVarsParams_congr rest agree.2)

end

end Agreement

theorem Normal.not_any {arms : List Ty} (normal : Normal arms) : arms.any isAny = false := by
  refine any_eq_false.mpr fun arm member unknown => ?_
  have plain := normal.plain arm member
  cases arm with
  | any => cases plain
  | _ => cases unknown

theorem Normal.flatMap_arms {flat : List Ty} (normal : Normal flat) : flat.flatMap arms = flat := by
  have alone : ∀ arm ∈ flat, arms arm = [arm] := fun arm member =>
    arms_of_isArm (normal.plain arm member)
  rw [flatMap_congr alone, flatMap_singleton']

mutual

theorem mapVars_none : ∀ t : Ty, t.WellFormed → t.mapVars (fun _ => none) = t
  | any, _ | cls _, _ | literal _, _ | module _, _ | object _ _, _ | var _ _, _ => rfl
  | app ref args, wellFormed => congrArg (app ref) (mapVarsAll_none args wellFormed)
  | tuple elements, wellFormed => congrArg tuple (mapVarsAll_none elements wellFormed)
  | union arms, wellFormed => (congrArg unionOf (mapVarsAll_none arms wellFormed.2)).trans
      (unionOf_of_normal wellFormed.1.not_any wellFormed.1.flatMap_arms wellFormed.1)
  | func ⟨name, overloads, decorators⟩, wellFormed =>
    congrArg (func ⟨name, ·, decorators⟩) (mapVarsOverloads_none overloads wellFormed)
  | method receiver owner name ⟨plain, overloads, decorators⟩, ⟨first, second, third⟩ =>
    have outer := congrArg₂ (method · · name ⟨plain, ·, decorators⟩)
      (mapVars_none receiver first) (mapVars_none owner second)
    (congr outer (mapVarsOverloads_none overloads third) :)
  | type inner, wellFormed => congrArg type (mapVars_none inner wellFormed)

theorem mapVarsAll_none : ∀ types : List Ty, AllWellFormed types → mapVarsAll (fun _ => none) types = types
  | [], _ => rfl
  | t :: rest, ⟨first, others⟩ => congrArg₂ cons (mapVars_none t first) (mapVarsAll_none rest others)

theorem mapVarsOption_none : ∀ type : Option Ty, OptionWellFormed type →
    mapVarsOption (fun _ => none) type = type
  | none, _ => rfl
  | some t, wellFormed => congrArg some (mapVars_none t wellFormed)

theorem mapVarsOverloads_none : ∀ overloads : List Signature, OverloadsWellFormed overloads →
    mapVarsOverloads (fun _ => none) overloads = overloads
  | [], _ => rfl
  | ⟨params, returns, body⟩ :: rest, ⟨first, second, others⟩ =>
    congrArg₂ cons (congrArg₂ (Signature.mk · · body) (mapVarsParams_none params first)
      (mapVarsOption_none returns second)) (mapVarsOverloads_none rest others)

theorem mapVarsParams_none : ∀ params : List Formal, ParamsWellFormed params →
    mapVarsParams (fun _ => none) params = params
  | [], _ => rfl
  | ⟨name, declared, kind, hasDefault⟩ :: rest, ⟨first, others⟩ =>
    congrArg₂ cons (congrArg (Formal.mk name · kind hasDefault) (mapVarsOption_none declared first))
      (mapVarsParams_none rest others)

end

end Ty

namespace Subst

variable {subst : Subst} {passed : List String} {t : Ty}

/-- Nothing is replaced in a type again, below the variables in `passed`. -/
def Spares (subst : Subst) (passed : List String) (t : Ty) : Prop :=
  ∀ name bound, .var name bound ∈ t.leaves → subst.imageOf passed name = none

theorem Spares.applyWithin (spares : subst.Spares passed t) (wellFormed : t.WellFormed)
    (steps : Nat) : subst.applyWithin steps passed t = t := by
  cases steps with
  | zero => exact Ty.mapVars_none t wellFormed
  | succ =>
    refine (Ty.mapVars_congr t fun leaf listed => ?_).trans (Ty.mapVars_none t wellFormed)
    cases leaf with
    | var name bound => simp [Ty.AgreeAt, spares name bound listed]
    | object => trivial

/-- The image of a variable is put in its place once and for all: a variable that stands for itself
is written alike, and of the variables in any other image no other one is replaced again. -/
def Once (subst : Subst) (name : String) (bound : Option Ty) : Prop :=
  ∀ image, subst.get? name = some image →
    if image.isVarNamed name then image = .var name bound else subst.Spares [name] image

/-- On well-formed types a substitution is one pass over the variables. -/
theorem apply_eq_mapVars (wellFormed : t.WellFormed) (images : ∀ entry ∈ subst, entry.2.WellFormed)
    (once : ∀ name bound, .var name bound ∈ t.leaves → subst.Once name bound) :
    subst.apply t = t.mapVars subst.get? := by
  rw [apply]
  split
  · rename_i empty
    rw [List.isEmpty_iff] at empty
    subst empty
    exact (Ty.mapVars_none t wellFormed).symm
  rename_i some
  obtain ⟨steps, same⟩ : ∃ steps, subst.length = steps + 1 :=
    Nat.exists_eq_add_one.mpr (length_pos_iff.mpr (by simpa using some))
  rw [same, applyWithin]
  refine Ty.mapVars_congr t fun leaf listed => ?_
  cases leaf with
  | object => trivial
  | var name bound =>
    have settled := once name bound listed
    rw [Ty.AgreeAt, imageOf, contains_nil]
    cases known : subst.get? name with
    | none => rfl
    | some image =>
      have stays := settled image known
      cases named : image.isVarNamed name with
      | true =>
        rw [named, if_pos rfl] at stays
        simp [Ty.isVarNamed, stays]
      | false =>
        rw [named, if_neg Bool.false_ne_true] at stays
        simpa [named] using stays.applyWithin (images _ (Table.mem_of_get? known)) steps

end Subst

theorem Class.subst_wellFormed (cls : Class) {args : List Ty}
    (each : ∀ arg ∈ args, arg.WellFormed) : ∀ entry ∈ cls.subst args, entry.2.WellFormed := by
  intro entry listed
  rcases mem_subst listed with missing | given
  · rw [missing]
    trivial
  · exact each _ given

namespace Registry

variable {registry : Registry} {ref : ClassRef} {cls : Class} {args : List Ty} {name : String}
  {subst : Subst} {t member : Ty}

theorem apply_run (images : subst.objectFree) (free : t.objectFree) :
    (world.apply subst t).run registry = .ok (subst.apply t, registry) := by
  obtain ⟨_, rfl, ran⟩ := apply_gives images free
  exact ran

section

variable (found : registry.lookup ref = .ok cls)
include found

theorem memberWithin_declared (declared : (registry.members cls).get? name = some member)
    (free : member.objectFree) (selfFree : cls.selfType.objectFree)
    (argsFree : Ty.allObjectFree args) (depth : Nat) :
    ∃ owner, (world.memberWithin name (depth + 1) ref args []).run registry =
      .ok ((some (.ok { member := (cls.subst args).apply member, owner }), [ref.qualName]), registry) := by
  have images := cls.subst_objectFree argsFree
  have looked : (world.lookup ref).run registry = .ok (.ok cls, registry) := by
    rw [← found]
    rfl
  have own : (world.ownMember cls name).run registry = .ok (.ok (some member), registry) := by
    rw [← declared]
    rfl
  rw [memberWithin, contains_nil, if_neg Bool.false_ne_true, run_bind_of_ok looked]
  dsimp only
  split
  · refine ⟨.cls ref, ?_⟩
    rw [pure_bind, run_bind_of_ok own]
    rw [run_bind_of_ok (apply_run images free)]
    rfl
  · refine ⟨(cls.subst args).apply cls.selfType, ?_⟩
    rw [run_bind_of_ok (apply_run images selfFree), run_bind_of_ok own]
    rw [run_bind_of_ok (apply_run images free)]
    rfl

theorem lookupMember_declared (declared : (registry.members cls).get? name = some member)
    (free : member.objectFree) (selfFree : cls.selfType.objectFree) (argsFree : Ty.allObjectFree args) :
    ∃ owner, (world.lookupMember (.app ref args) name).run registry =
      .ok (.ok { member := (cls.subst args).apply member, owner }, registry) := by
  obtain ⟨owner, within⟩ := memberWithin_declared found declared free selfFree argsFree maxBaseDepth
  refine ⟨owner, ?_⟩
  simp only [World.lookupMember, World.member, World.plainMember, World.nominalMember, Ty.nominal?,
    World.classMember, bind_assoc]
  rw [run_bind_of_ok within]
  rfl

/-- Where every parameter in a member is replaced once and for all, the member of a generic type is
the declared member with all parameters replaced by their arguments at once. No bound of a parameter
has an instance in it. -/
theorem member_instantiated_at_once (declared : (registry.members cls).get? name = some member)
    (free : member.objectFree) (normal : member.WellFormed) (selfFree : cls.selfType.objectFree)
    (argsFree : Ty.allObjectFree args) (argsNormal : ∀ arg ∈ args, arg.WellFormed)
    (once : ∀ param bound, .var param bound ∈ member.leaves → (cls.subst args).Once param bound) :
    ∃ owner, (world.lookupMember (.app ref args) name).run registry =
      .ok (.ok { member := member.mapVars (cls.subst args).get?, owner }, registry) := by
  rw [← Subst.apply_eq_mapVars normal (cls.subst_wellFormed argsNormal) once]
  exact lookupMember_declared found declared free selfFree argsFree

end

def inverse : Class :=
  { ref := { module := "m", name := "Inv" }, params := [{ name := "K" }, { name := "V" }] }

def inverseOf (key value : Ty) : Ty :=
  .app inverse.ref [key, value]

/-- The class with a member that has its parameters exchanged. -/
def withInverse : Registry :=
  define {}
    { cls := inverse, members := [("flip", inverseOf (.var "V" none) (.var "K" none))] }

/-- The first argument mentions its own parameter and the second one, which stands for itself. -/
theorem member_instantiated_at_once_nested :
    ∃ owner,
      (world.lookupMember (inverseOf (.tuple [.var "K" none, .var "V" none]) (.var "V" none))
        "flip").run withInverse =
        .ok (.ok { member := inverseOf (.var "V" none) (.tuple [.var "K" none, .var "V" none]),
                   owner }, withInverse) := by
  have found : withInverse.lookup inverse.ref = .ok inverse := rfl
  have declared : (withInverse.members inverse).get? "flip" =
    some (inverseOf (.var "V" none) (.var "K" none)) := rfl
  refine member_instantiated_at_once found declared rfl ?_ rfl rfl ?_ ?_
  · simp [inverseOf, Ty.WellFormed, Ty.AllWellFormed, Ty.OptionWellFormed]
  · simp [Ty.WellFormed, Ty.AllWellFormed, Ty.OptionWellFormed]
  · intro param bound listed image known
    obtain ⟨rfl, rfl⟩ | ⟨rfl, rfl⟩ :
        param = "V" ∧ bound = none ∨ param = "K" ∧ bound = none := by
      simpa [inverseOf, Ty.leaves, Ty.leavesAll] using listed
    · cases known
      rfl
    · cases known
      intro other bound listed
      obtain ⟨rfl, rfl⟩ | ⟨rfl, rfl⟩ :
          other = "K" ∧ bound = none ∨ other = "V" ∧ bound = none := by
        simpa [Ty.leaves, Ty.leavesAll] using listed
      · rfl
      · rfl

/-- Arguments that are exchanged parameters are exchanged once more: the member of `Inv[V, K]` is
`Inv[V, K]` again where replacing both parameters at once gives `Inv[K, V]`. -/
theorem exchanged_member_instantiated_again :
    (world.lookupMember (inverseOf (.var "V" none) (.var "K" none)) "flip").run withInverse =
        .ok (.ok { member := inverseOf (.var "V" none) (.var "K" none),
                   owner := inverseOf (.var "K" none) (.var "V" none) }, withInverse) ∧
      (inverseOf (.var "V" none) (.var "K" none)).mapVars
          (inverse.subst [.var "V" none, .var "K" none]).get? =
        inverseOf (.var "K" none) (.var "V" none) :=
  ⟨rfl, rfl⟩

end Registry

end Stubwise
