import Stubwise.Proofs.Scope.Frame

/-!
Frames that grow. Code that runs adds frames and makes names local; it neither moves a frame nor
changes which names it sends elsewhere.
-/

namespace Stubwise

structure Frame.Grows (before after : Frame) : Prop where
  kind : after.kind = before.kind
  parent : after.parent = before.parent
  globals : after.globals = before.globals
  nonlocals : after.nonlocals = before.nonlocals
  locals : ∀ name ∈ before.locals, name ∈ after.locals

namespace Frame

variable {frame before middle after : Frame} {name other : String}

theorem Grows.refl (frame : Frame) : frame.Grows frame := ⟨rfl, rfl, rfl, rfl, fun _ member => member⟩

theorem Grows.trans (first : before.Grows middle) (second : middle.Grows after) : before.Grows after where
  kind := second.kind.trans first.kind
  parent := second.parent.trans first.parent
  globals := second.globals.trans first.globals
  nonlocals := second.nonlocals.trans first.nonlocals
  locals name member := second.locals name (first.locals name member)

theorem Grows.sends (grown : before.Grows after) : after.Sends name ↔ before.Sends name := by
  simp only [Sends, grown.globals, grown.nonlocals]

theorem grows_bind (t : Ty) : frame.Grows (frame.bind name t) :=
  ⟨rfl, rfl, rfl, rfl, fun _ member => NameSet.mem_insert.mpr (.inl member)⟩

theorem grows_unbind : frame.Grows (frame.unbind name) := ⟨rfl, rfl, rfl, rfl, fun _ member => member⟩

theorem grows_declare : frame.Grows (frame.declare name) := by
  unfold declare
  split
  · exact .refl frame
  · exact ⟨rfl, rfl, rfl, rfl, fun _ member => NameSet.mem_insert.mpr (.inl member)⟩

theorem declares_bind {t : Ty} :
    (frame.bind name t).declares other = true ↔ frame.declares other = true ∨ other = name := by
  simp only [declares_iff, bind, NameSet.mem_insert, Sends]
  exact or_right_comm

end Frame

structure Frames.Grows (before after : Frames) : Prop where
  size : before.all.size ≤ after.all.size
  frame : ∀ id < before.all.size, (before.frame id).Grows (after.frame id)

namespace Frames

variable {frames before middle after : Frames} {id outer code : Nat}

theorem Grows.refl (frames : Frames) : frames.Grows frames := ⟨Nat.le_refl _, fun _ _ => .refl _⟩

theorem Grows.trans (first : before.Grows middle) (second : middle.Grows after) : before.Grows after where
  size := Nat.le_trans first.size second.size
  frame id known := (first.frame id known).trans (second.frame id (Nat.lt_of_lt_of_le known first.size))

theorem Grows.lt (grown : before.Grows after) (known : id < before.all.size) :
    id < after.all.size :=
  Nat.lt_of_lt_of_le known grown.size

theorem Grows.parent? (grown : before.Grows after) (known : id < before.all.size) :
    after.parent? id = before.parent? id := by
  simp only [Frames.parent?, (grown.frame id known).parent]

theorem grows_add (frame : Frame) : frames.Grows (frames.add frame).1 where
  size := by simp
  frame id known := by
    rw [frame_add_of_lt known]
    exact .refl _

theorem grows_modify {change : Frame → Frame} (each : ∀ frame : Frame, frame.Grows (change frame)) :
    frames.Grows (frames.modify id change) where
  size := by simp
  frame other known := by
    by_cases same : other = id
    · subst same
      rw [frame_modify_self known]
      exact each _
    · rw [frame_modify_of_ne same]
      exact .refl _

/-- The code that a frame belongs to: it is the frame of that code, or of a comprehension in it. -/
inductive Inside (frames : Frames) : Nat → Nat → Prop where
  | code {id : Nat} (named : (frames.frame id).kind ≠ .comprehension) : Inside frames id id
  | clause {id outer code : Nat} (clause : (frames.frame id).kind = .comprehension)
      (inner : frames.parent? id = some outer) (rest : Inside frames outer code) :
      Inside frames id code

theorem Inside.named (inside : frames.Inside id code) : (frames.frame code).kind ≠ .comprehension := by
  induction inside with
  | code named => exact named
  | clause _ _ _ ih => exact ih

theorem Inside.le (inside : frames.Inside id code) : code ≤ id := by
  induction inside with
  | code => omega
  | clause _ inner _ ih => exact Nat.le_trans ih (Nat.le_of_lt (parent?_lt inner))

theorem Inside.escape (inside : frames.Inside id code) : frames.escape id = code := by
  have found : (frames.chain id).find? (fun outer => (frames.frame outer).kind != .comprehension) =
      some code := by
    induction inside with
    | @code id named =>
      obtain ⟨rest, whole⟩ : ∃ rest, frames.chain id = id :: rest := by
        cases step : frames.parent? id with
        | none => exact ⟨[], chain_of_none step⟩
        | some => exact ⟨_, chain_of_some step⟩
      rw [whole, List.find?_cons_of_pos (by simpa using named)]
    | clause clause inner _ ih =>
      rw [chain_of_some inner, List.find?_cons_of_neg (by simp [clause]), ih]
  rw [Frames.escape, found, Option.getD_some]

theorem Inside.grows (grown : before.Grows after) (inside : before.Inside id code)
    (known : id < before.all.size) : after.Inside id code := by
  induction inside with
  | @code id named => exact .code ((grown.frame id known).kind ▸ named)
  | @clause id outer code clause inner _ ih =>
    have below := Nat.lt_trans (parent?_lt inner) known
    exact .clause ((grown.frame id known).kind.trans clause) ((grown.parent? known).trans inner) (ih below)

end Frames

/-- A watch on one frame. The names that the frame may declare are known, or are sent to it. -/
class Watch where
  home : Nat
  known : String → Prop
  sent : Frames → String → Prop
  grows {before after : Frames} {name : String} (grown : before.Grows after)
    (before_sent : sent before name) : sent after name

namespace Watch

variable [Watch] {frames before middle after : Frames} {id outer target : Nat} {name : String}

/-- The watched frame declares nothing else. -/
def Holds (frames : Frames) : Prop :=
  ∀ name, (frames.frame home).declares name = true → known name ∨ sent frames name

/-- Frames that grow and keep the watch. Nothing is said if the watched frame is not there. -/
def Step (before after : Frames) : Prop :=
  home < before.all.size → before.Grows after ∧ (Holds before → Holds after)

theorem Step.refl (frames : Frames) : Step frames frames := fun _ => ⟨.refl frames, id⟩

theorem Step.trans (first : Step before middle) (second : Step middle after) :
    Step before after := by
  intro present
  obtain ⟨grown, kept⟩ := first present
  obtain ⟨later, last⟩ := second (grown.lt present)
  exact ⟨grown.trans later, fun holds => last (kept holds)⟩

theorem step_add (frame : Frame) : Step frames (frames.add frame).1 := by
  intro present
  refine ⟨Frames.grows_add frame, fun holds name declared => ?_⟩
  rw [Frames.frame_add_of_lt present] at declared
  exact (holds name declared).imp_right (grows (Frames.grows_add frame))

theorem step_modify {change : Frame → Frame} (each : ∀ frame : Frame, frame.Grows (change frame))
    (new : id = home → ∀ name, (change (frames.frame id)).declares name = true →
      (frames.frame id).declares name = true ∨ known name ∨ sent frames name) :
    Step frames (frames.modify id change) := by
  intro present
  have grown : frames.Grows (frames.modify id change) := Frames.grows_modify each
  refine ⟨grown, fun holds name declared => ?_⟩
  by_cases here : id = home
  · subst here
    rw [Frames.frame_modify_self present] at declared
    rcases new rfl name declared with old | allowed
    · exact (holds name old).imp_right (grows grown)
    · exact allowed.imp_right (grows grown)
  · rw [Frames.frame_modify_of_ne fun same => here same.symm] at declared
    exact (holds name declared).imp_right (grows grown)

theorem step_unbind : Step frames (frames.modify id (·.unbind name)) :=
  step_modify (fun _ => Frame.grows_unbind) fun _ _ declared => .inl declared

theorem step_bind {t : Ty} (allowed : target = home →
      (frames.frame target).declares name = true ∨ known name ∨ sent frames name) :
    Step frames (frames.bind target name t) := by
  refine step_modify (fun _ => Frame.grows_bind t) fun here other declared => ?_
  rcases Frame.declares_bind.mp declared with old | rfl
  · exact .inl old
  · exact allowed here

/-- A name that frames which are not watched may send to the watched one. -/
def Admits (name : String) : Prop :=
  ∀ (frames : Frames) (id : Nat), id ≠ home → (frames.frame id).Sends name → sent frames name

/-- A frame through which every name can be stored: neither it nor the code that it belongs to is
watched, and what the two send elsewhere may go to the watched frame. -/
structure Spare (frames : Frames) (id : Nat) : Prop where
  present : id < frames.all.size
  away : id ≠ home
  sends : ∀ name, (frames.frame id).Sends name → sent frames name
  belongs : ∃ code, frames.Inside id code ∧ code ≠ home ∧
    ∀ name, (frames.frame code).Sends name → sent frames name

theorem Spare.grows (grown : before.Grows after) (spare : Spare before id) : Spare after id where
  present := grown.lt spare.present
  away := spare.away
  sends name sent := Watch.grows grown (spare.sends name ((grown.frame id spare.present).sends.mp sent))
  belongs := by
    obtain ⟨code, inside, away, sends⟩ := spare.belongs
    have known := Nat.lt_of_le_of_lt inside.le spare.present
    exact ⟨code, inside.grows grown spare.present, away, fun name sent =>
      Watch.grows grown (sends name ((grown.frame code known).sends.mp sent))⟩

theorem spare_code (present : id < frames.all.size) (away : id ≠ home)
    (named : (frames.frame id).kind ≠ .comprehension)
    (sends : ∀ name, (frames.frame id).Sends name → sent frames name) : Spare frames id :=
  ⟨present, away, sends, id, .code named, away, sends⟩

theorem spare_clause (present : id < frames.all.size) (away : id ≠ home)
    (clause : (frames.frame id).kind = .comprehension)
    (sends : ∀ name, ¬ (frames.frame id).Sends name) (inner : frames.parent? id = some outer)
    (around : Spare frames outer) : Spare frames id where
  present := present
  away := away
  sends name sent := absurd sent (sends name)
  belongs := by
    obtain ⟨code, inside, rest⟩ := around.belongs
    exact ⟨code, .clause clause inner inside, rest⟩

/-- A frame that is not watched, and to which a name is local. -/
structure Keeps (frames : Frames) (id : Nat) (name : String) : Prop where
  present : id < frames.all.size
  away : id ≠ home
  here : ¬ (frames.frame id).Sends name
  own : name ∈ (frames.frame id).locals

theorem Keeps.grows (grown : before.Grows after) (keeps : Keeps before id name) : Keeps after id name where
  present := grown.lt keeps.present
  away := keeps.away
  here sent := keeps.here ((grown.frame id keeps.present).sends.mp sent)
  own := (grown.frame id keeps.present).locals name keeps.own

/-- A name that may be stored through a frame and the comprehensions inside it. -/
def Frees (frames : Frames) (id : Nat) (name : String) : Prop :=
  known name ∨ Spare frames id

def Lets (frames : Frames) (id : Nat) (name : String) : Prop :=
  Frees frames id name ∨ Keeps frames id name

theorem Frees.grows (grown : before.Grows after) (frees : Frees before id name) :
    Frees after id name :=
  frees.imp_right (·.grows grown)

theorem Lets.grows (grown : before.Grows after) (lets : Lets before id name) :
    Lets after id name :=
  lets.imp (·.grows grown) (·.grows grown)

theorem Lets.lands (lets : Lets frames id name) (route : frames.Route name id target)
    (here : target = home) : known name ∨ sent frames name := by
  rcases lets with (known | spare) | keeps
  · exact .inl known
  · obtain ⟨code, inside, away, sends⟩ := spare.belongs
    cases route with
    | global sent => exact .inr (spare.sends name (.inl sent))
    | nonlocal _ sent => exact .inr (spare.sends name (.inr sent))
    | stays => exact absurd here spare.away
    | escapes _ _ _ _ rest =>
      rw [inside.escape] at rest
      cases rest with
      | global sent => exact .inr (sends name (.inl sent))
      | nonlocal _ sent => exact .inr (sends name (.inr sent))
      | stays => exact absurd here away
      | escapes _ _ clause => exact absurd clause inside.named
  · cases route with
    | global sent => exact absurd (.inl sent) keeps.here
    | nonlocal _ sent => exact absurd (.inr sent) keeps.here
    | stays => exact absurd here keeps.away
    | escapes _ new => exact absurd keeps.own new

structure Added (before after : Frames) (frame : Frame) (id : Nat) : Prop where
  home : Watch.home < before.all.size
  grown : before.Grows after
  new : before.all.size ≤ id
  present : id < after.all.size
  same : after.frame id = frame

namespace Added

variable {frame : Frame}

theorem away (added : Added before after frame id) : id ≠ Watch.home :=
  Nat.ne_of_gt (Nat.lt_of_lt_of_le added.home added.new)

theorem spare {kind : FrameKind} {own : String} {body : List Stmt}
    (added : Added before after (.ofBody kind own body outer) id) (named : kind ≠ .comprehension)
    (admits : ∀ name, name ∈ (Stmt.redirectionsAll body).globals ∨
      name ∈ (Stmt.redirectionsAll body).nonlocals → Admits name) : Spare after id := by
  refine spare_code added.present added.away ?_ fun name sends => ?_
  · rw [added.same]
    exact named
  · refine admits name ?_ after id added.away sends
    rw [added.same, Frame.ofBody, Frame.extend_sends] at sends
    exact sends.resolve_left (by simp [Frame.Sends])

section Clauses

variable {clauses : List Comprehension} (added : Added before after (.ofClauses clauses outer) id)
include added

theorem frees (around : Frees before outer name) : Frees after id name := by
  rcases around with known | spare
  · exact .inl known
  · have inner : after.parent? id = some outer := by
      have below := Nat.lt_of_lt_of_le spare.present added.new
      simp [Frames.parent?, added.same, Frame.ofClauses, below]
    refine .inr (spare_clause added.present added.away ?_ ?_ inner (spare.grows added.grown))
    · rw [added.same]
      rfl
    · rw [added.same]
      simp [Frame.Sends, Frame.ofClauses]

theorem keeps (own : name ∈ clauses.flatMap fun clause => clause.target.targetNames) :
    Keeps after id name where
  present := added.present
  away := added.away
  here := by
    rw [added.same]
    simp [Frame.Sends, Frame.ofClauses]
  own := by
    rw [added.same]
    exact NameSet.mem_insertAll.mpr (.inr own)

end Clauses

end Added

end Watch

end Stubwise
