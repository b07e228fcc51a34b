import EventReplay.Completion.Basic

/-!
# Callbacks that register callbacks

One completion and callbacks on it that register further callbacks when they run, to any depth, all on
one thread. What happens is kept as a list of events.
-/

set_option autoImplicit false

namespace EventReplay

/-- A callback with a name. -/
inductive Callback (ι : Type) where
  /-- Registers the nested callbacks when it runs. -/
  | call (id : ι) (nested : List (Callback ι))
  /-- Passes the outcome on to one who waits for it. -/
  | wait (id : ι)

/-- What can be observed of callbacks. -/
inductive CallbackEvent (ι : Type) where
  /-- A callback starts with an outcome, and looks at its completion. -/
  | started (id : ι) (outcome : Outcome) (resolved : Bool) (seen : Option Outcome)
  | ended (id : ι)
  /-- One who waited has the outcome. -/
  | waited (id : ι) (outcome : Outcome)

namespace Callback

variable {ι : Type}

mutual

/-- The number of callbacks that come of one. -/
def weight : Callback ι → Nat
  | call _ nested => 1 + weights nested
  | wait _ => 1

/-- The number of callbacks that come of some. -/
def weights : List (Callback ι) → Nat
  | [] => 0
  | c :: cs => c.weight + weights cs

end

end Callback

/-- A completion with callbacks, and what has happened so far. -/
structure Observed (ι : Type) where
  completion : Completion (Callback ι)
  /-- Whether the outcome can still be told. -/
  tellable : Bool
  /-- Those who wait, in order, with the outcome for those it has reached. -/
  waits : List (ι × Option Outcome) := []
  events : List (CallbackEvent ι) := []

namespace Observed

variable {ι : Type} [DecidableEq ι]

/-- A completion whose outcome can be told. -/
def fresh : Observed ι := ⟨.fresh, true, [], []⟩

/-- A completion that had its outcome from the start. -/
def resolved (outcome : Outcome) : Observed ι := ⟨.resolved outcome, false, [], []⟩

/-- Adds to what has happened. -/
def happen (o : Observed ι) (event : CallbackEvent ι) : Observed ι :=
  { o with events := o.events ++ [event] }

/-- Passes an outcome on to the first who waits under a name. -/
def passOn (id : ι) (outcome : Outcome) : List (ι × Option Outcome) → List (ι × Option Outcome)
  | [] => []
  | (id', none) :: waits =>
    if id' = id then (id', some outcome) :: waits else (id', none) :: passOn id outcome waits
  | reached :: waits => reached :: passOn id outcome waits

mutual

/-- Runs a callback. -/
def run (outcome : Outcome) (o : Observed ι) : Callback ι → Observed ι
  | .wait id => { o with waits := passOn id outcome o.waits }
  | .call id nested =>
    let o := o.happen (.started id outcome o.completion.isResolved o.completion.outcome?)
    (registerAll o nested).happen (.ended id)

/-- Registers callbacks one after another; each runs at once where all rounds are over. -/
def registerAll (o : Observed ι) : List (Callback ι) → Observed ι
  | [] => o
  | c :: cs =>
    match o.completion.register c with
    | (completion, none) => registerAll { o with completion } cs
    | (completion, some outcome) => registerAll (run outcome { o with completion } c) cs

end

/-- Runs round after round until one is empty. The callbacks of a round come of those before it, so
there are no more rounds than callbacks. -/
def runRounds : Nat → Outcome → List (Callback ι) → Observed ι → Observed ι
  | 0, _, _, o => o
  | rounds + 1, outcome, round, o =>
    let o := round.foldl (run outcome) o
    match o.completion.nextRound with
    | ([], completion) => { o with completion }
    | (round, completion) => runRounds rounds outcome round { o with completion }

/-- Tells the outcome, if it still can be told, and runs the callbacks. -/
def tell (outcome : Outcome) (o : Observed ι) : Observed ι :=
  if o.tellable then
    match o.completion.tell outcome with
    | none => { o with tellable := false }
    | some (round, completion) =>
      runRounds (Callback.weights round + 1) outcome round { o with completion, tellable := false }
  else o

/-- Registers a callback. -/
def onComplete (c : Callback ι) (o : Observed ι) : Observed ι := registerAll o [c]

/-- Starts to wait for the outcome. -/
def wait (id : ι) (o : Observed ι) : Observed ι :=
  registerAll { o with waits := o.waits ++ [(id, none)] } [.wait id]

/-- Lets those who wait go whom the outcome has reached. -/
def poll (o : Observed ι) : Observed ι :=
  let reached := o.waits.filterMap fun w => w.2.map fun outcome => CallbackEvent.waited w.1 outcome
  { o with waits := o.waits.filter fun w => w.2.isNone, events := o.events ++ reached }

/-- What has happened since it was last asked for. -/
def takeEvents (o : Observed ι) : List (CallbackEvent ι) × Observed ι :=
  (o.events, { o with events := [] })

end Observed

end EventReplay
