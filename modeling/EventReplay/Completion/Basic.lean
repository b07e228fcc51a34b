import EventReplay.Outcome

/-!
# Completions

A completion stands for the outcome of one dispatch, which is told once. Callbacks are registered on
it. They run when the outcome is told, in the order of their registration. A callback that is
registered while others run waits for the round after theirs, and one that is registered after the
last round runs at once.

Each definition here is one step that happens undivided; between two steps of the one that runs the
callbacks others may register more.
-/

set_option autoImplicit false

namespace EventReplay

/-- The outcome of a dispatch and the callbacks that wait for it. -/
inductive Completion (κ : Type) where
  /-- The outcome has not been told. -/
  | pending (waiting : List κ)
  /-- A round of callbacks is running; those in `late` were registered since it began. -/
  | draining (outcome : Outcome) (late : List κ)
  /-- The last round is over. -/
  | resolved (outcome : Outcome)
deriving DecidableEq, Repr

namespace Completion

variable {κ : Type}

/-- A completion whose outcome has not been told. -/
def fresh : Completion κ := pending []

/-- Whether the outcome has been told. -/
def isResolved : Completion κ → Bool
  | pending _ => false
  | draining .. | resolved _ => true

/-- The outcome, once it has been told. -/
def outcome? : Completion κ → Option Outcome
  | pending _ => none
  | draining outcome _ | resolved outcome => some outcome

/-- The callbacks that are kept to run later. -/
def kept : Completion κ → List κ
  | pending waiting => waiting
  | draining _ late => late
  | resolved _ => []

/-- Registers a callback. Where all rounds are over the callback is not kept, and the outcome comes
back for it to run with at once. -/
def register (k : κ) : Completion κ → Completion κ × Option Outcome
  | pending waiting => (pending (waiting ++ [k]), none)
  | draining outcome late => (draining outcome (late ++ [k]), none)
  | resolved outcome => (resolved outcome, some outcome)

/-- Tells the outcome; gives the first round of callbacks. An outcome is told only once. -/
def tell (outcome : Outcome) : Completion κ → Option (List κ × Completion κ)
  | pending waiting => some (waiting, draining outcome [])
  | draining .. | resolved _ => none

/-- Ends a round; gives the next one. After an empty round there is none. -/
def nextRound : Completion κ → List κ × Completion κ
  | draining outcome [] => ([], resolved outcome)
  | draining outcome (k :: late) => (k :: late, draining outcome [])
  | other => ([], other)

end Completion

end EventReplay
