import EventReplay.Completion.Basic
import EventReplay.Replay.Gate

/-!
# Tasks at a gate

Any number of tasks that use one gate: they reserve a unit, reserve one that goes back when a completion
is told, or drain the gate. A task that cannot be answered at once is asked again after every step, the
oldest first.
-/

set_option autoImplicit false

namespace EventReplay

/-- What a task wants. -/
inductive GateWish (η : Type) where
  /-- A permit to keep. -/
  | reserve
  /-- A permit that goes back when a completion is told. -/
  | acquire (handle : η)
  /-- That no permit is out. -/
  | drain
deriving DecidableEq, Repr

/-- A task that has not been answered. -/
structure GateTask (ι η : Type) where
  name : ι
  wish : GateWish η
  ticket : Nat
deriving DecidableEq, Repr

/-- A gate, the tasks at it, and the completions that permits go back on. -/
structure GateTasks (ι η : Type) where
  gate : Gate
  /-- The tasks that have not been answered, oldest first. -/
  tasks : List (GateTask ι η) := []
  /-- The tasks that hold a permit. -/
  permits : List ι := []
  /-- The completions, with a callback for each permit that goes back on it. -/
  completions : List (η × Completion Unit) := []
  /-- The ticket of the next task. -/
  nextTicket : Nat := 0

namespace GateTasks

variable {ι η : Type} [DecidableEq ι] [DecidableEq η]

/-- The completion of a handle; one that has not been met is fresh. -/
def completion (s : GateTasks ι η) (handle : η) : Completion Unit :=
  (s.completions.lookup handle).getD .fresh

/-- Sets the completion of a handle. -/
def setCompletion (s : GateTasks ι η) (handle : η) (c : Completion Unit) : GateTasks ι η :=
  { s with completions := (handle, c) :: s.completions.filter fun entry => entry.1 ≠ handle }

/-- Lets a permit go back when a completion is told, or at once if it has been. -/
def releaseWhenTold (s : GateTasks ι η) (handle : η) : GateTasks ι η :=
  match (s.completion handle).register () with
  | (c, none) => s.setCompletion handle c
  | (c, some _) => { s.setCompletion handle c with gate := s.gate.release }

/-- A task starts with a wish. -/
def start (s : GateTasks ι η) (name : ι) (wish : GateWish η) : GateTasks ι η :=
  let needs :=
    match wish with
    | .drain => s.gate.capacity
    | _ => 1
  { s with
    gate := s.gate.ask s.nextTicket needs
    tasks := s.tasks ++ [⟨name, wish, s.nextTicket⟩]
    nextTicket := s.nextTicket + 1 }

/-- Ends the tasks of a name that have not been answered. -/
def cancel (s : GateTasks ι η) (name : ι) : GateTasks ι η :=
  { s with
    gate := (s.tasks.filter fun task => task.name = name).foldl
      (fun gate task => gate.withdraw task.ticket) s.gate
    tasks := s.tasks.filter fun task => task.name ≠ name }

/-- Gives the permit of a task back. -/
def release (s : GateTasks ι η) (name : ι) : GateTasks ι η :=
  if name ∈ s.permits then
    { s with permits := s.permits.erase name, gate := s.gate.release }
  else s

/-- Lets the permit of a task go back when a completion is told. -/
def releaseOn (s : GateTasks ι η) (name : ι) (handle : η) : GateTasks ι η :=
  if name ∈ s.permits then
    ({ s with permits := s.permits.erase name }).releaseWhenTold handle
  else s

/-- Tells a completion, if it has not been told. -/
def tell (s : GateTasks ι η) (handle : η) (outcome : Outcome) : GateTasks ι η :=
  match (s.completion handle).tell outcome with
  | none => s
  | some (round, c) =>
    { s.setCompletion handle c.nextRound.2 with
      gate := round.foldl (fun gate _ => gate.release) s.gate }

/-- Closes the gate. -/
def close (s : GateTasks ι η) : GateTasks ι η := { s with gate := s.gate.close }

/-- Asks one task: its answer, `false` if the gate is closed, and the tasks afterwards. A task without
an answer stays. -/
def poll (s : GateTasks ι η) (task : GateTask ι η) : Option Bool × GateTasks ι η :=
  let others := s.tasks.filter fun other => other.ticket ≠ task.ticket
  if s.gate.closed then
    (some false, { s with tasks := others, gate := s.gate.withdraw task.ticket })
  else if s.gate.isReady task.ticket then
    match task.wish with
    | .reserve =>
      (some true,
        { s with tasks := others, gate := s.gate.grant task.ticket, permits := s.permits ++ [task.name] })
    | .acquire handle =>
      (some true,
        releaseWhenTold { s with tasks := others, gate := s.gate.grant task.ticket } handle)
    | .drain => (some true, { s with tasks := others, gate := s.gate.withdraw task.ticket })
  else (none, s)

/-- Asks every task once, the oldest first; gives the names of those answered and their answers. -/
def pollAll (s : GateTasks ι η) : List (ι × Bool) × GateTasks ι η :=
  s.tasks.foldl
    (fun (answers, s) task =>
      match s.poll task with
      | (some answer, s) => (answers ++ [(task.name, answer)], s)
      | (none, s) => (answers, s))
    ([], s)

end GateTasks

end EventReplay
