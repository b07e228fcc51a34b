import EventReplay.Replay.Hooks
import EventReplay.Record.Encode

/-!
# The steps of a replay

`Replay.ofSource` starts a replay and `Replay.step` is one undivided step of its producer, which reads
the clocks, asks the source, or changes one of the things that it shares with the hooks. `Replay.act`
takes whatever step comes next: of the producer, of one who tells an outcome, or of the sink that has
been flushed. A list of such steps is a schedule, and any schedule can happen.
-/

set_option autoImplicit false

namespace EventReplay

/-- One step of a replay. -/
inductive ReplayAction where
  /-- The producer takes a step at a moment. -/
  | produce (moment : Moment)
  /-- The producer has slept long enough. -/
  | wake
  /-- The outcome of a handle begins to be told. -/
  | tell (handle : Nat) (outcome : Outcome)
  /-- The one who tells the outcome of a handle takes a step. -/
  | continueTelling (handle : Nat)
  /-- The sink has been flushed. -/
  | flushed (moment : Moment) (result : Except DispatchFault Unit)

namespace Replay

variable {σ : Type} [EventSource σ]

/-- Starts a replay of a source; one without events ends at once. -/
def ofSource (plan : ReplayPlan) (metrics : Option ReplayMetrics) (shards : Nat) (moment : Moment)
    (source : σ) : Replay σ × List Effect :=
  let pull := EventSource.next source
  let replay (origin : Int) (stage : Stage) : Replay σ :=
    { plan, metrics, shards, stage
      start := moment.now
      source := pull.source
      pace := ⟨origin, plan.speedup, plan.minSleep⟩
      gate := .ofCapacity plan.maxOutstanding
      tracker := .startingAt plan.watermark moment.now
      statistics := .startingAt plan.statisticsFrequency moment.now }
  let notices := pull.notices.map Effect.notice
  match pull.answer with
  | .error fault => (replay 0 (.ended (.error (.source fault))), notices)
  | .ok none =>
    (replay 0 (.ended (.ok { stream := plan.stream, elapsed := moment.elapsed / 1000 })),
      notices ++ [.notice (.state .terminated)])
  | .ok (some event) =>
    (replay event.timestamp (.pacing event), notices ++ [.notice (.state .running)])

/-- Joins the line at the gate with a call for units. -/
def askGate (r : Replay σ) (needs : Nat) (stage : Nat → Stage) : Replay σ :=
  { r with
    gate := r.gate.ask r.nextTicket needs
    nextTicket := r.nextTicket + 1
    stage := stage r.nextTicket }

/-- Registers hooks on handles, one after another. -/
def registerAll (r : Replay σ) : List (Nat × Hook) → Replay σ × List Effect
  | [] => (r, [])
  | (handle, hook) :: hooks =>
    let (r, effects) := r.register handle hook
    let (r, more) := registerAll r hooks
    (r, effects ++ more)

/-- Broadcasts a marker, if there is one. -/
def broadcastMarker (r : Replay σ) : Option Watermark → Replay σ × List Effect
  | none => (r, [])
  | some watermark =>
    let first := r.nextHandle
    let hooks := (List.range r.shards).map fun n => (first + n, Hook.noteMarker n watermark.value)
    let (r, effects) := (r.openHandles r.shards).registerAll hooks
    (r.onMetrics (·.recordWatermark watermark.value),
      .broadcast first r.plan.stream (encodeWatermark watermark) :: effects)

/-- The producer takes a step at a moment. -/
def step (r : Replay σ) (moment : Moment) : Replay σ × List Effect :=
  match r.stage with
  | .pacing event =>
    let decision := r.pace.decide moment.elapsed event.timestamp
    let r := { r with lag := r.pace.lag decision.gap }
    match decision with
    | .sleep wait _ => ({ r with stage := .asleep event }, [.sleep wait])
    | .dispatch _ => (r.askGate 1 (.reserving event), [])
  | .reserving event ticket =>
    if r.gate.closed then ({ r with stage := .ended (.error .gateClosed) }, [])
    else if r.gate.isReady ticket then
      ({ r with gate := r.gate.grant ticket, stage := .holding event }, [])
    else (r, [])
  | .holding event =>
    let outbound := r.outbound event moment.now
    let handle := r.nextHandle
    ({ r.openHandles 1 with stage := .tracking event handle outbound },
      [.dispatch handle ⟨r.plan.stream, .ofKey event.key, encodeEvent outbound event⟩])
  | .tracking event handle outbound =>
    let hooks := [.settle outbound, .countFailure event.timestamp event.key, .release]
    ({ r with tracker := r.tracker.track outbound, stage := .hooking event handle hooks }, [])
  | .hooking event handle (hook :: hooks) =>
    let (r, effects) := r.register handle hook
    ({ r with stage := .hooking event handle hooks }, effects)
  | .hooking event _ [] => ({ r with stage := .counting event }, [])
  | .counting event =>
    let tally : Tally :=
      { r.tally with
        dispatched := r.tally.dispatched + 1
        firstTimestamp := some (r.tally.firstTimestamp.getD event.timestamp)
        lastTimestamp := some event.timestamp }
    ({ r with tally, statistics := r.statistics.record, stage := .pulling }.onMetrics
      ReplayMetrics.recordDispatch, [])
  | .pulling =>
    let pull := EventSource.next r.source
    let stage : Stage :=
      match pull.answer with
      | .ok next => .observing next
      | .error fault => .ended (.error (.source fault))
    ({ r with source := pull.source, stage }, pull.notices.map Effect.notice)
  | .observing next =>
    -- no later event will have an earlier outbound time than the next one has now
    let horizon := next.map fun event => r.outbound event moment.now
    let (marker, tracker) := r.tracker.maybeEmit moment.now horizon
    let (r, effects) := { r with tracker }.broadcastMarker marker
    ({ r with stage := .reporting next moment.now horizon }, effects)
  | .reporting next now horizon =>
    let r := r.onMetrics fun m => (m.setOutstanding r.gate.outstanding).setLag r.lag
    let (watermark, tracker) := r.tracker.settle horizon
    let (line, statistics) := r.statistics.maybeReport now watermark r.lag
    let r := { r with tracker, statistics }
    let lines := (line.map fun text => Effect.notice (.progress text)).toList
    match next with
    | some event => ({ r with stage := .pacing event }, lines)
    | none =>
      (r.askGate r.gate.capacity .draining, lines ++ [.notice (.state .draining)])
  | .draining ticket =>
    if r.gate.closed then ({ r with stage := .ended (.error .gateClosed) }, [])
    else if r.gate.isReady ticket then
      ({ r with gate := r.gate.withdraw ticket, stage := .closing }, [])
    else (r, [])
  | .closing =>
    let (marker, tracker) := r.tracker.emitNow moment.now none
    let (r, effects) := { r with tracker }.broadcastMarker marker
    ({ r with stage := .flushing }, effects ++ [.flush])
  | .asleep _ | .flushing | .ended _ => (r, [])

/-- The producer leaves out the event that it holds, for want of an encoding, and its unit of the gate
goes back. Every event has an encoding, so that no step comes to this. -/
def leaveOut (r : Replay σ) (error : String) : Replay σ × List Effect :=
  match r.stage with
  | .holding event =>
    ({ r with
        gate := r.gate.release
        tally := { r.tally with leftOut := r.tally.leftOut + 1 }
        statistics := r.statistics.record
        stage := .pulling },
      [.notice (.encodingFailed event.timestamp error)])
  | _ => (r, [])

/-- The producer has slept long enough. -/
def wake (r : Replay σ) : Replay σ :=
  match r.stage with
  | .asleep event => { r with stage := .observing (some event) }
  | _ => r

/-- The sink has been flushed, which ends the replay. -/
def flushed (r : Replay σ) (moment : Moment) (result : Except DispatchFault Unit) :
    Replay σ × List Effect :=
  match r.stage with
  | .flushing =>
    match result with
    | .error fault => ({ r with stage := .ended (.error (.sink fault)) }, [])
    | .ok () =>
      ({ r with stage := .ended (.ok (r.report moment.elapsed)) }.onMetrics
          (·.setOutstanding r.gate.outstanding),
        [.notice (.state .terminated)])
  | _ => (r, [])

/-- Takes one step of a schedule. -/
def act (r : Replay σ) : ReplayAction → Replay σ × List Effect
  | .produce moment => r.step moment
  | .wake => (r.wake, [])
  | .tell handle outcome => (r.tell handle outcome, [])
  | .continueTelling handle => r.continueTelling handle
  | .flushed moment result => r.flushed moment result

/-- Takes the steps of a schedule; gives all effects in order. -/
def follow (r : Replay σ) : List ReplayAction → Replay σ × List Effect
  | [] => (r, [])
  | action :: actions =>
    let (r, effects) := r.act action
    let (r, more) := follow r actions
    (r, effects ++ more)

/-- Whether the producer can take no step of its own. -/
def isBlocked (r : Replay σ) : Bool :=
  match r.stage with
  | .reserving _ ticket | .draining ticket => !r.gate.closed && !r.gate.isReady ticket
  | .asleep _ | .flushing | .ended _ => true
  | _ => false

end Replay

end EventReplay
