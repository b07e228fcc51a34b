import EventReplay.Replay.State

/-!
# Hooks on outcomes

What happens when the outcome of a delivery is told. The one who tells it runs the hooks round by round,
one hook at a time, and others may take steps in between; a hook that is registered after the last
round runs at once.
-/

set_option autoImplicit false

namespace EventReplay.Replay

variable {σ : Type}

/-- Runs a hook with an outcome. -/
def runHook (r : Replay σ) (outcome : Outcome) : Hook → Replay σ × List Effect
  | .settle outbound => ({ r with tracker := r.tracker.complete outbound }, [])
  | .countFailure timestamp key =>
    match outcome.fault? with
    | none => (r, [])
    | some fault =>
      ({ r with tally := { r.tally with failed := r.tally.failed + 1 } }.onMetrics
          ReplayMetrics.recordFailure,
        [.notice (.dispatchFailed timestamp key fault.message)])
  | .release => ({ r with gate := r.gate.release }, [])
  | .noteMarker shard watermark =>
    match outcome.fault? with
    | none => (r, [])
    | some fault => (r, [.notice (.markerFailed shard watermark fault.message)])

/-- Replaces what is known of a handle. -/
def replaceCompletion (handle : Nat) (c : Completion Hook) :
    List (Nat × Completion Hook) → List (Nat × Completion Hook)
  | [] => []
  | (h, c') :: rest =>
    if h = handle then (h, c) :: rest else (h, c') :: replaceCompletion handle c rest

/-- The completion of a handle. -/
def completion? (r : Replay σ) (handle : Nat) : Option (Completion Hook) :=
  r.completions.lookup handle

/-- Sets the completion of a handle. -/
def setCompletion (r : Replay σ) (handle : Nat) (c : Completion Hook) : Replay σ :=
  { r with completions := replaceCompletion handle c r.completions }

/-- Makes new handles, so many. -/
def openHandles (r : Replay σ) (count : Nat) : Replay σ :=
  { r with
    nextHandle := r.nextHandle + count
    completions :=
      ((List.range' r.nextHandle count).map fun handle => (handle, Completion.fresh)).reverse ++
        r.completions }

/-- Registers a hook on a handle. -/
def register (r : Replay σ) (handle : Nat) (hook : Hook) : Replay σ × List Effect :=
  match r.completion? handle with
  | none => (r, [])
  | some c =>
    match c.register hook with
    | (c, none) => (r.setCompletion handle c, [])
    | (c, some outcome) => (r.setCompletion handle c).runHook outcome hook

/-- Starts to tell the outcome of a handle, unless it has been told. -/
def tell (r : Replay σ) (handle : Nat) (outcome : Outcome) : Replay σ :=
  match (r.completion? handle).bind fun c => c.tell outcome with
  | none => r
  | some (round, c) =>
    { r.setCompletion handle c with tellings := r.tellings ++ [⟨handle, outcome, round⟩] }

/-- The one who tells the outcome of a handle takes a step: the next hook of the round, or, after the
last of them, the next round, or the end. -/
def continueTelling (r : Replay σ) (handle : Nat) : Replay σ × List Effect :=
  match r.tellings.find? fun t => t.handle = handle with
  | none => (r, [])
  | some telling =>
    let resume (round : List Hook) : List Telling :=
      r.tellings.map fun t => if t.handle = handle then { t with round } else t
    match telling.round with
    | hook :: round => { r with tellings := resume round }.runHook telling.outcome hook
    | [] =>
      match (r.completion? handle).map Completion.nextRound with
      | some (hook :: round, c) =>
        ({ r.setCompletion handle c with tellings := resume (hook :: round) }, [])
      | some ([], c) =>
        ({ r.setCompletion handle c with
            tellings := r.tellings.filter fun t => t.handle ≠ handle }, [])
      | none => (r, [])

/-- The one who tells the outcome of a handle takes so many steps. -/
def continueTellingFor : Nat → Nat → Replay σ → Replay σ × List Effect
  | 0, _, r => (r, [])
  | steps + 1, handle, r =>
    let (r, effects) := r.continueTelling handle
    let (r, more) := continueTellingFor steps handle r
    (r, effects ++ more)

/-- Tells the outcome of a handle without a break: the hooks registered on it, and the end of their
round. -/
def resolve (r : Replay σ) (handle : Nat) (outcome : Outcome) : Replay σ × List Effect :=
  match (r.completion? handle).bind fun c => c.tell outcome with
  | none => (r, [])
  | some (round, _) => continueTellingFor (round.length + 1) handle (r.tell handle outcome)

end EventReplay.Replay
