import Stubwise.Infer.Walker
import Stubwise.Proofs.Orderly.Lattice
import Stubwise.Proofs.Orderly.Stub

/-!
Work in sessions. Where some operations of a session are orderly and bodies are run so, its world of
classes is reliable.
-/

namespace Stubwise

/-- An account of work in sessions: stops are thrown and faults are caught, and work may go on from
what it reads in the session. -/
class Inferring [Standard] [Accountable Infer] : Prop extends Catching Infer where
  get {α : Type} {post : α → Prop} {next : Session → Infer α}
    (later : ∀ session, Accountable.Yields post (next session)) :
    Accountable.Yields post (get >>= next)

/-- A change of a session in fields that no account looks at. -/
class Unseen (before after : Session) : Prop where
  diagnostics : after.diagnostics = before.diagnostics
  values : after.values = before.values
  functions : after.functions = before.functions
  frames : after.frames = before.frames

variable {stubs : Stubs} {module file : String} {strict : Bool} {maxDepth nextStamp nextNode : Nat}
  {classes : Std.HashMap String Class} {members : Std.HashMap Nat MemberTable} {pending : Array Nat}
  {returns types : Std.HashMap Nat Ty} {running : List Nat} {returned : List Ty}
  {assigned : Std.HashMap String (Table Ty)} {instances : Instances} {assumptions : Std.TreeSet String}

instance (session : Session) :
    Unseen session (Session.mk stubs module file strict maxDepth classes members nextStamp
      session.values session.functions pending returns running returned assigned
      session.diagnostics types session.frames instances assumptions nextNode) :=
  ⟨rfl, rfl, rfl, rfl⟩

/-- An account under which sessions do what does not depend on the code that is run: they change
unseen, report faults and remember failures, and load and delete names. -/
class Bookkeeping [Standard] [Accountable Infer] : Prop extends Inferring where
  modify (change : Session → Session) (unseen : ∀ session, Unseen session (change session)) :
    Orderly (modify change : Infer Unit)
  modifyGet {α : Type} [Propriety α] [AllProper α] (change : Session → α × Session)
    (unseen : ∀ session, Unseen session (change session).2) : Orderly (modifyGet change : Infer α)
  moduleMember (module name : String) : Orderly (Session.moduleMember module name)
  reportFault (fault : Fault) (position : Position) [Proper fault] [Proper position] :
    Orderly (Session.reportFault fault position)
  blame (expr : Expr) (fault : Fault) [Proper expr.position] [Proper fault] :
    Orderly (Session.blame expr fault)
  loadName (frame : Nat) (name : String) : Orderly (Session.loadName frame name)
  deleteName (frame : Nat) (name : String) : Orderly (Session.deleteName frame name)

attribute [instance] Bookkeeping.moduleMember Bookkeeping.reportFault
  Bookkeeping.blame Bookkeeping.loadName Bookkeeping.deleteName

section Accounts

variable [Standard] [Accountable Infer]

section

variable [Inferring] {α : Type} [Propriety α]

instance (priority := low) get_bind_orderly {next : Session → Infer α}
    [later : ∀ session, Orderly (next session)] : Orderly (get >>= next) :=
  ⟨Inferring.get fun session => (later session).yields⟩

theorem orderly_get {next : Session → Infer α} (later : ∀ session, Orderly (next session)) :
    Orderly (get >>= next) :=
  get_bind_orderly

namespace Session

instance (outcome : Except Stop α) [known : Orderly outcome] : Orderly (ofStubs outcome) := by
  unfold ofStubs
  cases outcome with
  | ok a =>
    have a_proper : Proper a := ⟨known.yields⟩
    infer_instance
  | error stop =>
    have stop_proper : Proper stop := ⟨known.yields⟩
    infer_instance

instance (outcome : Except Fault α) [known : Proper outcome] : Orderly (ofExcept outcome) := by
  unfold ofExcept
  cases outcome with
  | ok a =>
    have a_proper : Proper a := ⟨known.holds⟩
    infer_instance
  | error fault =>
    have fault_proper : Proper fault := ⟨known.holds⟩
    infer_instance

end Session

end

variable [Bookkeeping]

instance (change : Session → Session) [unseen : ∀ session, Unseen session (change session)] :
    Orderly (modify change : Infer Unit) :=
  Bookkeeping.modify change unseen

instance {α : Type} [Propriety α] [AllProper α] (change : Session → α × Session)
    [unseen : ∀ session, Unseen session (change session).2] :
    Orderly (modifyGet change : Infer α) :=
  Bookkeeping.modifyGet change unseen

namespace Session

instance lookupClass_orderly (ref : ClassRef) : Orderly (lookupClass ref) := by
  refine orderly_get fun session => ?_
  split
  · infer_instance
  · split
    · rename_i fault failed
      have stop_proper : Proper (Stop.fault fault) := Orderly.proper_error failed
      have fault_proper : Proper fault := ⟨stop_proper.holds⟩
      infer_instance
    · infer_instance
    · infer_instance

section Body

variable {body : Nat → Infer Ty} [∀ number, Orderly (body number)]

instance (cls : Class) (name : String) (t : Ty) : Orderly (ownMember.settle cls name t) := by
  unfold ownMember.settle
  infer_instance

instance ownMember_orderly (cls : Class) (name : String) : Orderly (ownMember body cls name) := by
  refine orderly_get fun session => ?_
  dsimp only
  split
  · infer_instance
  split
  · infer_instance
  split
  · infer_instance
  · refine orderly_get fun session => ?_
    refine orderly_except (fun found _ => ?_) (fun fault _ => inferInstance)
    cases found <;> infer_instance
  · infer_instance

instance world_reliable : (world body).Reliable where
  lookup := lookupClass_orderly
  memberNames cls := by
    unfold world
    infer_instance
  ownMember := ownMember_orderly
  moduleMember := Bookkeeping.moduleMember
  instances := by
    unfold world
    infer_instance
  setInstances instances := by
    unfold world
    infer_instance
  assumptions := by
    unfold world
    infer_instance
  setAssumptions assumptions := by
    unfold world
    infer_instance
  crash crash := by
    unfold world
    infer_instance

end Body

end Session

end Accounts

section Maps

variable {κ ν : Type} [BEq κ] [Hashable κ] [Propriety ν]

instance : Propriety (Std.HashMap κ ν) := ⟨fun map => ∀ key : κ, proper map[key]?⟩

instance empty_proper : Proper ({} : Std.HashMap κ ν) where
  holds key := by
    rw [Std.HashMap.getElem?_empty]
    exact none_proper.holds

variable {map : Std.HashMap κ ν} [all : Proper map]

instance (key : κ) : Proper map[key]? := ⟨all.holds key⟩

variable [LawfulBEq κ] [LawfulHashable κ]

instance (key : κ) (default : ν) [other : Proper default] : Proper (map.getD key default) := by
  rw [Std.HashMap.getD_eq_getD_getElem?]
  infer_instance

instance (key : κ) (value : ν) [new : Proper value] : Proper (map.insert key value) where
  holds other := by
    rw [Std.HashMap.getElem?_insert]
    exact (inferInstance : Proper (if key == other then some value else map[other]?)).holds

end Maps

section Standards

variable [Standard]

instance : Propriety FuncInfo :=
  ⟨fun info => (Stmt.function info.definition).Stands ∧ (Stmt.function info.definition).Near proper⟩

/-- Diagnostics that a session may report. -/
class Reported (diagnostics : List Diagnostic) : Prop where
  each : ∀ diagnostic ∈ diagnostics, Standard.reports diagnostic

instance nil_reported : Reported [] := ⟨List.forall_mem_nil _⟩

instance : Propriety Session :=
  ⟨fun session => (∀ diagnostic ∈ session.diagnostics, Standard.reports diagnostic) ∧
    proper session.values ∧ proper session.functions⟩

namespace Session

section Fields

variable (session : Session) [known : Proper session]

instance diagnostics_reported : Reported session.diagnostics := ⟨known.holds.1⟩

instance : Proper session.values := ⟨known.holds.2.1⟩

instance : Proper session.functions := ⟨known.holds.2.2⟩

end Fields

instance mk_proper (values : Std.HashMap String (Except Fault Ty)) (functions : Std.HashMap Nat FuncInfo)
    (diagnostics : List Diagnostic) (frames : Frames) [reported : Reported diagnostics]
    [failures : Proper values] [definitions : Proper functions] :
    Proper (mk stubs module file strict maxDepth classes members nextStamp values functions
      pending returns running returned assigned diagnostics types frames instances assumptions
      nextNode) :=
  ⟨reported.each, failures.holds, definitions.holds⟩

end Session

section Changes

instance : Inferring where
  get later session before := later session session before

instance : Orderly (get : Infer Session) := ⟨fun _ before => ⟨before, before⟩⟩

instance (change : Session → Session)
    [kept : ∀ session : { session : Session // proper session }, Proper (change session)] :
    Orderly (modify change : Infer Unit) :=
  ⟨fun session before => ⟨trivial, (kept ⟨session, before⟩).holds⟩⟩

instance {α : Type} [Propriety α] (change : Session → α × Session)
    [kept : ∀ session : { session : Session // proper session }, Proper (change session)] :
    Orderly (modifyGet change : Infer α) :=
  ⟨fun session before => (kept ⟨session, before⟩).holds⟩

theorem proper_of_unseen {before after : Session} (unseen : Unseen before after)
    (known : proper before) : proper after := by
  show (∀ diagnostic ∈ after.diagnostics, Standard.reports diagnostic) ∧ proper after.values ∧
    proper after.functions
  rw [unseen.diagnostics, unseen.values, unseen.functions]
  exact known

end Changes

namespace Session

theorem moduleMember_standard (module name : String) : Orderly (moduleMember module name) := by
  refine orderly_bind fun session _ => ?_
  split
  · rename_i value found
    have value_proper : Proper value := Proper.of_some found
    infer_instance
  · infer_instance

theorem report_standard (diagnostic : Diagnostic) [Proper diagnostic]
    (place : diagnostic.position.isSet = true ∨ proper diagnostic.position) :
    Orderly (report diagnostic) := by
  have filed (session : Session) [Proper session] :
      Reported (diagnostic.inFile session.file :: session.diagnostics) := by
    have known : Proper (diagnostic.inFile session.file) := inferInstance
    refine ⟨List.forall_mem_cons.mpr ⟨?_, (diagnostics_reported session).each⟩⟩
    refine Standard.reported known.holds ?_
    rw [Diagnostic.position_inFile]
    exact place
  unfold report
  infer_instance

theorem reportFault_standard (fault : Fault) (position : Position) [Proper fault]
    [here : Proper position] : Orderly (reportFault fault position) := by
  refine report_standard _ ((fault.positioned_place position).imp_right fun same => ?_)
  rw [same]
  exact here.holds

theorem blame_standard (expr : Expr) (fault : Fault) [Proper expr.position] [Proper fault] :
    Orderly (blame expr fault) := by
  unfold blame
  dsimp only
  split <;> infer_instance

instance (frame : Frame) : Orderly (addFrame frame) := ⟨fun _ before => ⟨trivial, before⟩⟩

end Session

instance : Propriety Loaded := ⟨fun
    | .unbound diagnostic => proper diagnostic
    | _ => True⟩

namespace Frames

variable (frames : Frames)

instance loadLocal_proper (id : Nat) (name : String) : Proper (frames.loadLocal id name) where
  holds := by
    unfold loadLocal
    dsimp only
    split
    · trivial
    · split
      · trivial
      · exact @Proper.holds Diagnostic _ _ inferInstance

theorem askedFrom_proper {loaded : Loaded} (chain : List String) (known : proper loaded) :
    proper (loaded.askedFrom chain) := by
  cases loaded with
  | unbound => exact Standard.stays known rfl rfl (.inl rfl)
  | _ => exact known

instance load_proper (id : Nat) (name : String) : Proper (frames.load id name) where
  holds := by
    fun_induction frames.load id name with
    | case1 => exact (loadLocal_proper frames _ _).holds
    | case2 => assumption
    | case3 => trivial
    | case4 => exact (loadLocal_proper frames _ _).holds
    | case5 => trivial
    | case6 => assumption
    | case7 => trivial
    | case8 => exact askedFrom_proper _ ‹_›
    | case9 => exact @Proper.holds Diagnostic _ _ inferInstance

instance storeTarget_proper (id : Nat) (name : String) : Proper (frames.storeTarget id name) := by
  fun_induction frames.storeTarget id name <;> infer_instance

instance deleteTarget_proper (id : Nat) (name : String) : Proper (frames.deleteTarget id name) := by
  fun_induction frames.deleteTarget id name <;> infer_instance

end Frames

namespace Session

theorem loadName_standard (frame : Nat) (name : String) : Orderly (loadName frame name) := by
  have builtin := moduleMember_standard ClassRef.builtinsModule name
  refine orderly_get fun session => ?_
  split
  · infer_instance
  · rename_i diagnostic loaded
    have diagnostic_proper : Proper diagnostic := ⟨(Proper.of_eq loaded).holds⟩
    infer_instance
  · infer_instance
  · infer_instance

instance (frame : Nat) (name : String) (t : Ty) : Orderly (storeName frame name t) := by
  refine orderly_get fun session => ?_
  split
  · infer_instance
  · rename_i stop failed
    have stop_proper : Proper stop := ⟨(Proper.of_eq failed).holds⟩
    infer_instance

theorem deleteName_standard (frame : Nat) (name : String) : Orderly (deleteName frame name) := by
  refine orderly_get fun session => ?_
  split
  · infer_instance
  · rename_i stop failed
    have stop_proper : Proper stop := ⟨(Proper.of_eq failed).holds⟩
    infer_instance

instance : Bookkeeping where
  modify _ unseen := ⟨fun session before => ⟨trivial, proper_of_unseen (unseen session) before⟩⟩
  modifyGet _ unseen := ⟨fun session before =>
    ⟨AllProper.all _, proper_of_unseen (unseen session) before⟩⟩
  moduleMember := moduleMember_standard
  reportFault := reportFault_standard
  blame := blame_standard
  loadName := loadName_standard
  deleteName := deleteName_standard

end Session

end Standards

end Stubwise
