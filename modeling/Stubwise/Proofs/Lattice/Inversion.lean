import Stubwise.Proofs.Lattice.Idempotent

/-!
Matching inverts substitution. A formal type that is matched against an instance of itself binds
each of its variables to what was put in its place.
-/

namespace Stubwise

open List

namespace Ty

/-- Formal types of a nesting depth of at most `depth`, built from variables, classes, applied
classes, tuples of fixed length and classes as values. -/
inductive Pattern : Nat → Ty → Prop where
  | var {depth : Nat} {name : String} {bound : Option Ty} (regular : ∀ limit ∈ bound, limit.Regular) :
      Pattern depth (.var name bound)
  | cls {depth : Nat} {ref : ClassRef} : Pattern depth (.cls ref)
  | app {depth : Nat} {ref : ClassRef} {args : List Ty} (each : ∀ arg ∈ args, Pattern depth arg) :
      Pattern (depth + 1) (.app ref args)
  | tuple {depth : Nat} {elements : List Ty} (each : ∀ element ∈ elements, Pattern depth element) :
      Pattern (depth + 1) (.tuple elements)
  | type {depth : Nat} {inner : Ty} (below : Pattern depth inner) : Pattern (depth + 1) (.type inner)

variable {depth : Nat} {t : Ty} {name : String}

theorem allVarOccurrences_eq_flatMap (types : List Ty) :
    allVarOccurrences types = types.flatMap varOccurrences := by
  induction types with
  | nil => rfl
  | cons _ _ ih => rw [allVarOccurrences, ih, flatMap_cons]

theorem mapVarsAll_eq_map (image : String → Option Ty) (types : List Ty) :
    mapVarsAll image types = types.map (mapVars image) := by
  induction types with
  | nil => rfl
  | cons t _ ih => exact congrArg (t.mapVars image :: ·) ih

theorem mapVars_app (image : String → Option Ty) (ref : ClassRef) (args : List Ty) :
    (app ref args).mapVars image = app ref (args.map (mapVars image)) :=
  congrArg (app ref) (mapVarsAll_eq_map image args)

theorem mapVars_tuple (image : String → Option Ty) (elements : List Ty) :
    (tuple elements).mapVars image = tuple (elements.map (mapVars image)) :=
  congrArg tuple (mapVarsAll_eq_map image elements)

theorem mem_freeVars_iff : name ∈ t.freeVars ↔ ∃ param ∈ t.varOccurrences, param.name = name := by
  rw [freeVars, mem_eraseDups, mem_map]

theorem Pattern.regular (pattern : Pattern depth t) : t.Regular := by
  induction pattern with
  | @var _ _ bound regular =>
    cases bound with
    | none => exact ⟨rfl, trivial⟩
    | some limit => exact ⟨(regular limit rfl).free, (regular limit rfl).wellFormed⟩
  | cls => exact ⟨rfl, trivial⟩
  | app _ ih | tuple _ ih =>
    exact ⟨allObjectFree_iff.mpr fun t listed => (ih t listed).free,
      allWellFormed_iff.mpr fun t listed => (ih t listed).wellFormed⟩
  | type _ ih => exact ⟨ih.free, ih.wellFormed⟩

theorem Pattern.mem_freeVars {bound : Option Ty} (pattern : Pattern depth t)
    (occurs : .var name bound ∈ t.leaves) : name ∈ t.freeVars := by
  rw [mem_freeVars_iff]
  induction pattern with
  | var =>
    cases mem_singleton.mp occurs
    exact ⟨_, mem_singleton_self _, rfl⟩
  | cls => cases occurs
  | app _ ih | tuple _ ih =>
    rw [leaves, leavesAll_eq_flatMap] at occurs
    obtain ⟨t, listed, below⟩ := mem_flatMap.mp occurs
    obtain ⟨param, known, same⟩ := ih t listed below
    rw [varOccurrences, allVarOccurrences_eq_flatMap]
    exact ⟨param, mem_flatMap.mpr ⟨t, listed, known⟩, same⟩
  | type _ ih => exact ih occurs

theorem leaves_eq_nil (free : t.objectFree) (closed : ∀ name, ¬t.Mentions name) : t.leaves = [] := by
  refine eq_nil_iff_forall_not_mem.mpr fun leaf occurs => ?_
  cases leaf with
  | var name bound => exact closed name ⟨bound, occurs⟩
  | object => exact object_not_mem_leaves free occurs

theorem occursIn_of_closed (free : t.objectFree) (closed : ∀ name, ¬t.Mentions name) :
    t.occursIn name = false := by
  have none := varOccurrences_subset t
  rw [leaves_eq_nil free closed] at none
  rw [occursIn, subset_nil.mp none]
  rfl

end Ty

/-- Types without instances and variables, with all unions in normal form. -/
structure Ty.Ground (t : Ty) : Prop extends t.Regular where
  closed : ∀ name, ¬t.Mentions name

namespace Subst

variable {subst bindings after last : Subst} {names others : List String} {name : String} {t : Ty}

def Follows (subst bindings : Subst) : Prop :=
  ∀ entry ∈ bindings, subst.get? entry.1 = some entry.2

/-- Bindings to which some names were added with what a substitution has for them. -/
def Adds (subst : Subst) (names : List String) (before after : Subst) : Prop :=
  ∀ name, after.get? name = if name ∈ names then subst.get? name else before.get? name

theorem Adds.refl (subst bindings : Subst) : subst.Adds [] bindings bindings := by
  intro name
  rw [if_neg not_mem_nil]

theorem Adds.append (first : subst.Adds names bindings after)
    (second : subst.Adds others after last) : subst.Adds (names ++ others) bindings last := by
  intro name
  rw [second, first]
  by_cases here : name ∈ names <;> by_cases there : name ∈ others <;> simp [here, there]

theorem Follows.set (follows : subst.Follows bindings) (known : subst.get? name = some t) :
    subst.Follows (Table.set bindings name t) := by
  intro entry listed
  rcases Table.mem_of_mem_set listed with rfl | old
  · exact known
  · exact follows entry old

theorem idempotent_of_ground (ground : ∀ entry ∈ subst, entry.2.Ground) : subst.Idempotent :=
  fun entry listed name mentioned => absurd mentioned ((ground entry listed).closed name)

theorem apply_of_ground (ground : ∀ entry ∈ subst, entry.2.Ground) (normal : t.WellFormed) :
    subst.apply t = t.mapVars subst.get? :=
  apply_eq_mapVars normal (fun entry listed => (ground entry listed).wellFormed)
    fun name bound _ => (idempotent_of_ground ground).once name bound

end Subst

namespace World

variable {m : Type → Type} [Monad m] (world : World m) (conforms : Conforms m)
  {subst bindings : Subst} {formals : List Ty} {image : Ty → Ty} {depth : Nat} {formal : Ty}

/-- Work that ends with the bindings of more names, taken from a substitution. -/
def Learns (subst : Subst) (params : List TypeParam) (bindings : Subst) (work : m Matched) : Prop :=
  ∃ after, work = pure (none, after) ∧ subst.Follows after ∧
    subst.Adds (params.map (·.name)) bindings after

theorem bindParam_learns (param : TypeParam) {image : Ty}
    (follows : subst.Follows bindings) (known : subst.get? param.name = some image)
    (ground : image.Ground) :
    Learns subst [param] bindings (world.bindParam conforms param.name image bindings) := by
  rw [bindParam, Ty.occursIn_of_closed ground.free ground.closed, if_neg Bool.false_ne_true]
  cases bound : bindings.get? param.name with
  | none =>
    refine ⟨_, rfl, follows.set known, fun other => ?_⟩
    by_cases same : param.name = other
    · simp [same, ← known]
    · simp [same, Ne.symm same]
  | some existing =>
    -- The variable was met before: its binding is the image itself.
    obtain rfl : existing = image := Option.some.inj ((follows _ (Table.mem_of_get? bound)).symm.trans known)
    refine ⟨bindings, ?_, follows, fun other => ?_⟩
    · simp [Ty.equal]
    · by_cases same : other = param.name
      · simp [same, known, bound]
      · simp [same]

theorem argPairs_map (image : Ty → Ty) (formals : List Ty) :
    argPairs formals (formals.map image) = formals.map fun t => (t, image t) := by
  induction formals with
  | nil => rfl
  | cons _ _ ih => rw [map_cons, argPairs, ih, map_cons]

theorem matchWithin_learns_of_open {concrete : Ty} (follows : subst.Follows bindings)
    (learns : formal.hasFreeVars = true → Learns subst formal.varOccurrences bindings
      (world.matchWithin conforms (depth + 1) bindings formal concrete)) :
    Learns subst formal.varOccurrences bindings
      (world.matchWithin conforms (depth + 1) bindings formal concrete) := by
  cases open_ : formal.hasFreeVars with
  | true => exact learns open_
  | false =>
    have none : formal.varOccurrences = [] := by simpa [Ty.hasFreeVars] using open_
    rw [none]
    refine ⟨bindings, ?_, follows, .refl _ _⟩
    unfold matchWithin
    rw [open_]
    rfl

variable [LawfulMonad m]

theorem upcast_same (ref : ClassRef) (args : List Ty) :
    world.upcast conforms (.app ref args) ref = pure (some args) := by
  simp [upcast, Ty.nominal?, upcastClass, upcastWithin, ClassRef.same_refl]

theorem matchPairs_learns {step : Subst → Ty → Ty → m Matched}
    (steps : ∀ t ∈ formals, ∀ bindings, subst.Follows bindings →
      Learns subst t.varOccurrences bindings (step bindings t (image t)))
    (follows : subst.Follows bindings) :
    Learns subst (Ty.allVarOccurrences formals) bindings
      (matchPairs step bindings (formals.map fun t => (t, image t))) := by
  induction formals generalizing bindings with
  | nil => exact ⟨bindings, rfl, follows, .refl _ _⟩
  | cons _ _ ih =>
    rw [forall_mem_cons] at steps
    obtain ⟨after, matched, onward, first⟩ := steps.1 bindings follows
    obtain ⟨last, done, ended, second⟩ := ih steps.2 onward
    refine ⟨last, ?_, ended, ?_⟩
    · rw [map_cons, matchPairs, matched, pure_bind]
      exact done
    · rw [Ty.allVarOccurrences, map_append]
      exact first.append second

/-- One level of a formal type takes one level of matching. -/
theorem matchWithin_learns (ground : ∀ entry ∈ subst, entry.2.Ground)
    (pattern : formal.Pattern depth) (follows : subst.Follows bindings)
    (covers : ∀ param ∈ formal.varOccurrences, subst.contains param.name = true) :
    Learns subst formal.varOccurrences bindings
      (world.matchWithin conforms (depth + 1) bindings formal (formal.mapVars subst.get?)) := by
  induction pattern generalizing bindings with
  | @var depth name bound =>
    obtain ⟨image, known⟩ : ∃ image, subst.get? name = some image :=
      Option.isSome_iff_exists.mp (covers _ (mem_singleton_self _))
    have image_eq : (Ty.var name bound).mapVars subst.get? = image := congrArg (Option.getD · _) known
    rw [image_eq]
    exact world.bindParam_learns conforms ⟨name, bound⟩ follows known (ground _ (Table.mem_of_get? known))
  | cls => exact ⟨bindings, rfl, follows, .refl _ _⟩
  | @app depth ref args each ih =>
    refine world.matchWithin_learns_of_open conforms follows fun open_ => ?_
    rw [Ty.varOccurrences, Ty.allVarOccurrences_eq_flatMap] at covers
    unfold matchWithin
    rw [open_, Bool.not_true, if_neg Bool.false_ne_true, Ty.mapVars_app]
    dsimp only
    rw [upcast_same, pure_bind]
    dsimp only
    rw [argPairs_map]
    exact matchPairs_learns (fun t listed bindings follows => ih t listed follows fun param occurs =>
      covers param (mem_flatMap.mpr ⟨t, listed, occurs⟩)) follows
  | @tuple depth elements each ih =>
    refine world.matchWithin_learns_of_open conforms follows fun open_ => ?_
    rw [Ty.varOccurrences, Ty.allVarOccurrences_eq_flatMap] at covers
    unfold matchWithin
    rw [open_, Bool.not_true, if_neg Bool.false_ne_true, Ty.mapVars_tuple]
    simp only [length_map, BEq.rfl, if_true]
    rw [← map_prod_left_eq_zip]
    exact matchPairs_learns (fun t listed bindings follows => ih t listed follows fun param occurs =>
      covers param (mem_flatMap.mpr ⟨t, listed, occurs⟩)) follows
  | type _ ih =>
    refine world.matchWithin_learns_of_open conforms follows fun open_ => ?_
    unfold matchWithin
    rw [open_]
    exact ih follows covers

/-- In every world, a formal type of no more levels than are matched that is matched against an
instance of itself binds exactly its variables, each to the type that was put in its place, be this
`Any` or a union. With these bindings it is that instance again. -/
theorem matching_inverts_substitution (pattern : formal.Pattern maxMatchDepth)
    (ground : ∀ entry ∈ subst, entry.2.Ground)
    (covers : ∀ name ∈ formal.freeVars, subst.contains name = true) :
    ∃ concrete bindings, world.apply subst formal = pure concrete ∧
      world.unify [] (some formal) (some concrete) = pure (none, bindings) ∧
      (∀ name, bindings.get? name = if name ∈ formal.freeVars then subst.get? name else none) ∧
      world.resolve bindings formal = pure (.ok concrete) := by
  have regular := pattern.regular
  have start : subst.Follows [] := forall_mem_nil _
  obtain ⟨bindings, matched, follows, adds⟩ := world.matchWithin_learns world.conforms ground pattern
    start fun param occurs => covers _ (Ty.mem_freeVars_iff.mpr ⟨param, occurs, rfl⟩)
  have bound : ∀ name, bindings.get? name = if name ∈ formal.freeVars then subst.get? name else none := by
    intro name
    simp only [adds name, Ty.freeVars, mem_eraseDups]
    rfl
  have groundBindings : ∀ entry ∈ bindings, entry.2.Ground := fun entry listed =>
    ground _ (Table.mem_of_get? (follows entry listed))
  have same : formal.mapVars bindings.get? = formal.mapVars subst.get? := by
    refine Ty.mapVars_congr _ fun leaf occurs => ?_
    cases leaf with
    | object => trivial
    | var name => rw [Ty.AgreeAt, bound name, if_pos (pattern.mem_freeVars occurs)]
  have allBound : formal.freeVars.filter (fun name => !bindings.contains name) = [] := by
    refine filter_eq_nil_iff.mpr fun name listed => ?_
    rw [Table.contains, bound name, if_pos listed, ← Table.contains, covers name listed]
    decide
  refine ⟨formal.mapVars subst.get?, bindings, ?_, matched, bound, ?_⟩
  · rw [world.apply_of_objectFree regular.free fun entry listed => (ground entry listed).free,
      Subst.apply_of_ground ground regular.wellFormed]
  · rw [resolve, allBound]
    rw [world.apply_of_objectFree regular.free fun entry listed => (groundBindings entry listed).free,
      Subst.apply_of_ground groundBindings regular.wellFormed, same, pure_bind]

/-- `dict[T, tuple[T, type[U]]]` for `int | str` and `Any`. A variable that does not occur is not
bound. -/
theorem matching_inverts_substitution_nested :
    let number : Ty := .union [.builtin "int", .strType]
    let formal : Ty :=
      .dictOf (.var "T" none) (.tuple [.var "T" none, .type (.var "U" none)])
    ∃ concrete bindings, Registry.world.unify [] (some formal) (some concrete) = pure (none, bindings) ∧
      bindings.get? "T" = some number ∧ bindings.get? "U" = some .any ∧ bindings.get? "X" = none := by
  intro number formal
  have open_ (depth : Nat) (name : String) : (Ty.var name none).Pattern depth := .var (by simp)
  have closed {t : Ty} (none : t.leaves = []) (name : String) : ¬t.Mentions name := by
    rintro ⟨bound, occurs⟩
    rw [none] at occurs
    cases occurs
  have pattern : formal.Pattern maxMatchDepth := by
    refine .app (forall_mem_cons.mpr ⟨open_ _ _, forall_mem_singleton.mpr (.tuple ?_)⟩)
    exact forall_mem_cons.mpr ⟨open_ _ _, forall_mem_singleton.mpr (.type (open_ _ _))⟩
  have numberGround : number.Ground :=
    ⟨⟨rfl, by decide, trivial, trivial, trivial⟩, closed rfl⟩
  have ground : ∀ entry ∈ [("T", number), ("U", .any), ("X", .strType)], entry.2.Ground :=
    forall_mem_cons.mpr ⟨numberGround, forall_mem_cons.mpr ⟨⟨⟨rfl, trivial⟩, closed rfl⟩,
      forall_mem_singleton.mpr ⟨⟨rfl, trivial⟩, closed rfl⟩⟩⟩
  obtain ⟨concrete, bindings, _, matched, bound, _⟩ :=
    matching_inverts_substitution Registry.world pattern ground (by decide)
  exact ⟨concrete, bindings, matched, bound "T", bound "U", bound "X"⟩

end World

end Stubwise
