import EventReplay.Completion.Basic
import EventReplay.Metrics.Registry
import EventReplay.Replay.Gate
import EventReplay.Replay.Pace
import EventReplay.Replay.Plan
import EventReplay.Replay.Report
import EventReplay.Replay.Statistics
import EventReplay.Sink.Delivery

/-!
# The state of a replay

One producer takes events from a source, waits until each is due, takes a unit of the gate, and hands
the event to a sink. The outcomes come back at any time, in any order, from elsewhere, and run hooks
that were registered on them. Here is what producer and hooks share, and how far each of them is
(`Stage`, `Telling`); the steps they take are in `EventReplay.Replay.Hooks` and
`EventReplay.Replay.Step`.
-/

set_option autoImplicit false

namespace EventReplay

/-- What the outcome of a delivery sets off. -/
inductive Hook where
  /-- The tracker lets an outbound time go. -/
  | settle (outbound : Int)
  /-- A failure of an event is counted. -/
  | countFailure (timestamp : Int) (key : String)
  /-- The unit of the gate goes back. -/
  | release
  /-- A failure of a marker is told. -/
  | noteMarker (shard : Nat) (watermark : Int)
deriving DecidableEq, Repr

/-- A moment as it is read off the clocks. -/
structure Moment where
  /-- The microseconds since the replay started. -/
  elapsed : Nat
  /-- The wall-clock time in milliseconds. -/
  now : Int
deriving DecidableEq, Repr

/-- What a replay does to the world around it. -/
inductive Effect where
  | notice (n : Notice)
  /-- It sleeps for so many nanoseconds. -/
  | sleep (wait : Nat)
  /-- It hands a delivery to the sink; the outcome goes to a handle. -/
  | dispatch (handle : Nat) (delivery : Delivery)
  /-- It hands a record for every shard to the sink; the outcomes go to handles from a first one on. -/
  | broadcast (first : Nat) (stream : String) (payload : Bytes)
  /-- It asks the sink to flush. -/
  | flush
deriving DecidableEq, Repr

/-- What the producer is about to do. -/
inductive Stage where
  /-- To ask whether the next event is due. -/
  | pacing (event : Event)
  /-- To wake up before the next event. -/
  | asleep (event : Event)
  /-- To go on with a due event once the gate grants a unit. -/
  | reserving (event : Event) (ticket : Nat)
  /-- To hand an event to the sink. -/
  | holding (event : Event)
  /-- To track an event that the sink has been handed. -/
  | tracking (event : Event) (handle : Nat) (outbound : Int)
  /-- To register hooks on the outcome of an event. -/
  | hooking (event : Event) (handle : Nat) (hooks : List Hook)
  /-- To count an event. -/
  | counting (event : Event)
  /-- To ask the source for the next event. -/
  | pulling
  /-- To see whether a marker is due. -/
  | observing (next : Option Event)
  /-- To see whether a progress line is due. -/
  | reporting (next : Option Event) (now : Int) (horizon : Option Int)
  /-- To go on once the gate has all its units. -/
  | draining (ticket : Nat)
  /-- To make the last marker. -/
  | closing
  /-- To end once the sink has been flushed. -/
  | flushing
  | ended (result : Except ReplayFault ReplayReport)

/-- An outcome that is being told: the hooks of its round that are still to run. -/
structure Telling where
  handle : Nat
  outcome : Outcome
  round : List Hook
deriving DecidableEq, Repr

/-- What a replay counts. -/
structure Tally where
  dispatched : Nat := 0
  /-- The events left out for want of an encoding. -/
  leftOut : Nat := 0
  failed : Nat := 0
  firstTimestamp : Option Int := none
  lastTimestamp : Option Int := none
deriving DecidableEq, Repr

/-- A replay from a source into a stream of some shards. -/
structure Replay (σ : Type) where
  plan : ReplayPlan
  /-- The number of shards that a marker goes to. -/
  shards : Nat
  /-- The wall-clock time of the start. -/
  start : Int
  source : σ
  pace : Pace
  gate : Gate
  tracker : Tracker
  statistics : Statistics
  metrics : Option ReplayMetrics := none
  tally : Tally := {}
  /-- How far the replay lags behind its schedule, in seconds. -/
  lag : Float := 0
  nextTicket : Nat := 0
  nextHandle : Nat := 0
  /-- The outcomes of deliveries and the hooks on them, latest first. -/
  completions : List (Nat × Completion Hook) := []
  /-- The outcomes that are being told. -/
  tellings : List Telling := []
  stage : Stage

namespace Replay

variable {σ : Type}

/-- The outbound time of an event that is sent at a time. -/
def outbound (r : Replay σ) (event : Event) (now : Int) : Int :=
  r.plan.adaptTime.outbound r.start r.pace.origin event.timestamp now

/-- Changes the metrics, if there are any. -/
def onMetrics (r : Replay σ) (f : ReplayMetrics → ReplayMetrics) : Replay σ :=
  { r with metrics := r.metrics.map f }

/-- The result of a replay that has ended. -/
def result? (r : Replay σ) : Option (Except ReplayFault ReplayReport) :=
  match r.stage with
  | .ended result => some result
  | _ => none

/-- The report of a replay that ends. -/
def report (r : Replay σ) (elapsed : Nat) : ReplayReport :=
  { stream := r.plan.stream
    dispatched := r.tally.dispatched
    failed := r.tally.failed
    encodeErrors := r.tally.leftOut
    watermarksEmitted := r.tracker.emitted
    lastWatermark := r.tracker.current
    firstTimestamp := r.tally.firstTimestamp
    lastTimestamp := r.tally.lastTimestamp
    peakOutstanding := r.gate.peak
    elapsed := elapsed / 1000 }

end Replay

end EventReplay
