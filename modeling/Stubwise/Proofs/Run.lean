import Stubwise.Fault

namespace Stubwise.Run

variable {σ α β : Type} {run : ExceptT Stop (StateM σ) α} {state : σ}

theorem run_bind (run : ExceptT Stop (StateM σ) α) (next : α → ExceptT Stop (StateM σ) β) (state : σ) :
    (run >>= next).run.run state = match run.run.run state with
      | (.ok value, left) => (next value).run.run left
      | (.error stop, left) => (.error stop, left) := by
  rw [ExceptT.run_bind, StateT.run_bind]
  generalize run.run.run state = ended
  obtain ⟨_ | _, left⟩ := ended <;> rfl

theorem exists_of_bind {ε : Type} {run : Except ε α} {next : α → Except ε β} {value : β}
    (ended : run >>= next = .ok value) : ∃ first, run = .ok first ∧ next first = .ok value := by
  cases run with
  | error => cases ended
  | ok first => exact ⟨first, rfl, ended⟩

theorem run_modify (change : σ → σ) :
    (modify change : ExceptT Stop (StateM σ) Unit).run.run state = (.ok (), change state) :=
  rfl

theorem run_ofExcept (answer : Except Stop α) :
    (ofExcept answer : ExceptT Stop (StateM σ) α).run.run state = (answer, state) := by
  cases answer <;> rfl

theorem run_get_bind (next : σ → ExceptT Stop (StateM σ) β) :
    (get >>= next).run.run state = (next state).run.run state :=
  rfl

theorem run_modifyGet_bind (change : σ → α × σ) (next : α → ExceptT Stop (StateM σ) β) :
    (modifyGet change >>= next).run.run state = (next (change state).1).run.run (change state).2 :=
  rfl

/-- What is caught of work that was run: its faults, but no crash. -/
def caught : Except Stop α → Except Stop (Except Fault α)
  | .ok value => .ok (.ok value)
  | .error (.fault fault) => .ok (.error fault)
  | .error (.crash crash) => .error (.crash crash)

theorem run_attempt (run : ExceptT Stop (StateM σ) α) (state : σ) :
    (attempt run).run.run state = (caught (run.run.run state).1, (run.run.run state).2) := by
  have whole : (attempt run).run = ((do return Except.ok (← run) :
      ExceptT Stop (StateM σ) (Except Fault α)).run >>= fun
        | .ok outcome => pure (.ok outcome)
        | .error (.fault fault) => pure (.ok (.error fault))
        | .error (.crash crash) => pure (.error (.crash crash))) := by
    refine (ExceptT.run_tryCatch _ _).trans (bind_congr fun outcome => ?_)
    rcases outcome with (_ | _) | _ <;> rfl
  rw [whole, StateT.run_bind, run_bind]
  generalize run.run.run state = ended
  rcases ended with ⟨(_ | _) | _, left⟩ <;> rfl

end Stubwise.Run
