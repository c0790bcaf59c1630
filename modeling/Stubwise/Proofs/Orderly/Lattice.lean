import Stubwise.Proofs.Lattice.NormalForm
import Stubwise.Proofs.Orderly.Fault

namespace Stubwise

set_option synthInstance.maxSize 4000
variable [Standard] {m : Type → Type} [Monad m] [Accountable m]

/-- A world whose answers are orderly. -/
class World.Answering (world : World m) : Prop where
  lookup : ∀ ref, Orderly (world.lookup ref)
  memberNames : ∀ cls, Orderly (world.memberNames cls)
  ownMember : ∀ cls name, Orderly (world.ownMember cls name)
  moduleMember : ∀ module name, Orderly (world.moduleMember module name)
  instances : Orderly world.instances
  setInstances : ∀ instances, Orderly (world.setInstances instances)
  assumptions : Orderly world.assumptions
  crash : ∀ {α : Type} [Propriety α] (crash : Crash), Orderly (world.crash crash : m α)

/-- A world that answers in an orderly way, and whose assumptions may be set. -/
class World.Reliable (world : World m) : Prop extends world.Answering where
  setAssumptions : ∀ assumptions, Orderly (world.setAssumptions assumptions)

attribute [instance] World.Answering.lookup World.Answering.memberNames World.Answering.ownMember
  World.Answering.moduleMember World.Answering.instances World.Answering.setInstances
  World.Answering.assumptions World.Answering.crash World.Reliable.setAssumptions

namespace Lattice

section

variable {α : Type} {holds : α → m Bool} [∀ a, Orderly (holds a)]

instance (list : List α) : Orderly (allOf holds list) := by
  induction list <;> unfold allOf <;> infer_instance

instance (list : List α) : Orderly (anyOf holds list) := by
  induction list <;> unfold anyOf <;> infer_instance

end

section Joins

variable {sub : Ty → Ty → m Bool} [∀ a b, Orderly (sub a b)]

instance (index : Nat) (arm : Ty) (place : Nat) (arms : List Ty) :
    Orderly (redundantArm sub index arm place arms) := by
  induction arms generalizing place <;> unfold redundantArm <;> infer_instance

instance (arms : List Ty) (index : Nat) (rest : List Ty) : Orderly (keptArms sub arms index rest) := by
  induction rest generalizing index <;> unfold keptArms <;> infer_instance

instance (t : Ty) : Orderly (absorb sub t) := by
  unfold absorb
  split <;> infer_instance

instance (a b : Ty) : Orderly (joinPlain sub a b) := by
  refine orderly_bind fun below _ => orderly_bind fun above _ => ?_
  split <;> infer_instance

instance (a b : Ty) : Orderly (joinRight sub a b) := by
  fun_induction joinRight sub a b <;> infer_instance

instance joinWith_orderly (a b : Ty) : Orderly (joinWith sub a b) := by
  fun_induction joinWith sub a b <;> infer_instance

instance (a b : Option Ty) : Orderly (joinOption sub a b) := by
  unfold joinOption
  split <;> infer_instance

instance (joined : Option Ty) (types : List Ty) : Orderly (joinFrom sub joined types) := by
  induction types generalizing joined <;> unfold joinFrom <;> infer_instance

end Joins

end Lattice

namespace World

variable {world : World m} [world.Answering]
  (t : Ty) (name : String) (target : ClassRef) (bindings : Subst)

instance (subst : Subst) : Orderly (world.apply subst t) := by
  unfold apply
  split
  · infer_instance
  · refine orderly_bind fun instances _ => ?_
    split <;> infer_instance

instance {α : Type} [Propriety α] {visit : ClassRef → List Ty → List String → m (Option α × List String)}
    [∀ ref args visited, Orderly (visit ref args visited)] (subst : Subst) (bases : List Ty)
    (visited : List String) : Orderly (world.searchBases visit subst bases visited) := by
  induction bases generalizing visited with
  | nil =>
    unfold searchBases
    infer_instance
  | cons =>
    refine orderly_bind fun applied _ => ?_
    split
    · infer_instance
    · refine orderly_pair fun found visited _ _ => ?_
      cases found <;> infer_instance

instance (depth : Nat) (ref : ClassRef) (args : List Ty)
    (visited : List String) : Orderly (world.upcastWithin target depth ref args visited) := by
  induction depth generalizing ref args visited <;> unfold upcastWithin <;> infer_instance

section Conforms

variable {conforms : Conforms m} [∀ t target, Orderly (conforms t target)]

instance upcast_orderly : Orderly (world.upcast conforms t target) := by
  unfold upcast
  split <;> infer_instance

instance (a b : Ty) : Orderly (world.subtypeOfClasses conforms a b) := by
  have fits (arm other : Ty) : Orderly (match arm, other with
      | .cls ref, .cls target => world.subclass conforms ref target
      | _, _ => return false) := by
    split <;> infer_instance
  unfold subtypeOfClasses
  infer_instance

instance literalType_orderly (values : List LiteralValue) : Orderly (world.literalType conforms values) := by
  unfold literalType
  infer_instance

theorem serves_orderly : world.Serves conforms fun _ => True where
  any := trivial
  cls _ := trivial
  bound _ := trivial
  args _ _ _ := trivial
  elements _ _ _ := trivial
  arms _ _ _ := trivial
  inner _ := trivial
  upcast _ target := (upcast_orderly _ target).yields
  literals values := (literalType_orderly values).yields

instance (a b : Ty) : Orderly (world.subtype conforms a b) :=
  ⟨subtype_ends serves_orderly a b trivial trivial⟩

end Conforms

instance (owner : Ty) : Proper (owner.missingAttribute name) := by
  unfold Ty.missingAttribute
  have finding : Proper (Cause.missingAttribute owner.text name) := ⟨trivial⟩
  infer_instance

instance (depth : Nat) (ref : ClassRef) (args : List Ty)
    (visited : List String) : Orderly (world.memberWithin name depth ref args visited) := by
  induction depth generalizing ref args visited with
  | zero =>
    unfold memberWithin
    infer_instance
  | succ =>
    unfold memberWithin
    split
    · infer_instance
    · refine orderly_except (fun cls _ => ?_) (fun fault _ => inferInstance)
      dsimp only
      split
      all_goals
        refine orderly_bind fun owner _ => ?_
        refine orderly_except (fun found _ => ?_) (fun fault _ => inferInstance)
        cases found <;> infer_instance

instance (ref : ClassRef) (args : List Ty) : Orderly (world.classMember name ref args) := by
  refine orderly_pair fun found visited _ _ => ?_
  cases found <;> infer_instance

instance (inner : Ty) : Orderly (world.classAttribute name inner) := by
  unfold classAttribute
  split
  · infer_instance
  · infer_instance
  · split <;> infer_instance

instance : Orderly (world.nominalMember name t) := by
  unfold nominalMember
  split <;> infer_instance

instance : Orderly (world.plainMember name t) := by
  unfold plainMember
  split <;> infer_instance

instance (whole : Ty) (arms : List Ty) : Orderly (world.plainArms name whole arms) := by
  induction arms <;> unfold plainArms <;> infer_instance

section

variable {conforms : Conforms m} [∀ t target, Orderly (conforms t target)]

instance (whole : Ty) (members : Except Fault (List Ty))
    [known : Proper members] : Orderly (world.joinedMember conforms whole members) := by
  cases members with
  | ok =>
    unfold joinedMember
    infer_instance
  | error fault =>
    have fault_proper : Proper fault := ⟨known.holds⟩
    unfold joinedMember
    infer_instance

set_option linter.unusedSectionVars false in
mutual

theorem member_orderly (name : String) (t : Ty) : Orderly (world.member conforms name t) := by
  unfold member
  split
  · rename_i arms
    have each := memberOfArms_orderly name (.union arms) arms
    infer_instance
  · rename_i id base
    have inner := member_orderly name base
    refine orderly_bind fun instances _ => ?_
    split <;> infer_instance
  · refine orderly_bind fun joined _ => ?_
    split <;> infer_instance
  · infer_instance

theorem memberOfArms_orderly (name : String) (whole : Ty) (arms : List Ty) :
    Orderly (world.memberOfArms conforms name whole arms) := by
  unfold memberOfArms
  split
  · infer_instance
  · rename_i arm rest
    have first := member_orderly name arm
    have others := memberOfArms_orderly name whole rest
    infer_instance

end

instance (name : String) (t : Ty) : Orderly (world.member conforms name t) := member_orderly name t

instance (position : Position) [Proper position] : Proper (assignable t name position) := by
  unfold assignable
  split <;> infer_instance

instance conflict_proper (existing t : Ty) : Proper (Matched.conflict name existing t) := by
  unfold Matched.conflict
  infer_instance

instance tooDeep_proper (formal concrete : Ty) : Proper (Matched.tooDeep formal concrete) := by
  unfold Matched.tooDeep
  infer_instance

instance (names : List String) : Proper (Matched.unbound names) := by
  unfold Matched.unbound
  have finding : Proper (Cause.unboundParams names) := ⟨trivial⟩
  infer_instance

theorem binds_orderly : world.Binds conforms (fun _ => True) proper proper where
  toServes := serves_orderly
  join _ _ := (Lattice.joinWith_orderly _ _).yields
  conflict name existing t := (conflict_proper name existing t).holds
  tooDeep formal concrete := (tooDeep_proper formal concrete).holds
  fits _ _ _ := trivial
  set _ _ _ := AllProper.all _

instance (depth : Nat) (formal concrete : Ty) :
    Orderly (world.matchWithin conforms depth bindings formal concrete) :=
  ⟨matchWithin_upholds binds_orderly depth (AllProper.all bindings) trivial trivial⟩

instance (formal concrete : Option Ty) : Orderly (world.matchTypes conforms bindings formal concrete) := by
  unfold matchTypes
  cases formal <;> infer_instance

instance resolve_orderly : Orderly (world.resolve bindings t) := by
  unfold resolve
  split <;> infer_instance

instance {visit : Class → List String → m (List String)}
    [∀ cls names, Orderly (visit cls names)] (bases : List Ty) (names : List String) :
    Orderly (protocolNames.ofBases world visit bases names) := by
  induction bases generalizing names with
  | nil =>
    unfold protocolNames.ofBases
    infer_instance
  | cons =>
    unfold protocolNames.ofBases
    split <;> infer_instance

instance (depth : Nat) (cls : Class) (names : List String) :
    Orderly (world.protocolNames depth cls names) := by
  induction depth generalizing cls names <;> unfold protocolNames <;> infer_instance

instance (proto : Class) (late : Bool) :
    Orderly (world.checkMember conforms proto target t late bindings name) := by
  refine orderly_bind fun found _ => ?_
  split
  · refine orderly_except (fun got _ => ?_) (fun fault _ => inferInstance)
    dsimp only
    split
    · infer_instance
    · refine orderly_pair fun failed bindings _ _ => ?_
      cases failed <;> infer_instance
  · infer_instance

instance {check : Subst → String → m MemberCheck}
    [∀ bindings name, Orderly (check bindings name)] (names : List String) :
    Orderly (checkMembers check bindings names) := by
  induction names generalizing bindings with
  | nil =>
    unfold checkMembers
    infer_instance
  | cons =>
    refine orderly_bind fun checked _ => ?_
    cases checked <;> infer_instance

instance (params : List TypeParam) : Orderly (world.resolveParams bindings params) := by
  induction params generalizing bindings <;> unfold resolveParams <;> infer_instance

end

section

variable [world.Reliable]

instance (depth : Nat) : Orderly (world.conformsWithin depth t target) := by
  induction depth generalizing t target <;> unfold conformsWithin <;> infer_instance

end

end World

end Stubwise
