import EventReplay.Sink.Basic

/-!
# Sessions with a sink

A sink with a clock and the outcomes of all deliveries so far. Handles are counted from zero in the
order of the deliveries. Whoever waits moves the clock to the times at which outcomes are due; each of
those times settles at least one handle, so there are no more of them than handles.
-/

set_option autoImplicit false

namespace EventReplay

/-- A sink and the outcomes that it has told. -/
structure SinkSession (ω : Type) where
  sink : ω
  /-- The time in milliseconds. -/
  now : Nat := 0
  /-- The outcomes in the order of the deliveries, where they have been told. -/
  outcomes : List (Option Outcome) := []

namespace SinkSession

variable {ω : Type} [Sink ω]

/-- Notes outcomes. -/
def note (s : SinkSession ω) (told : List (Nat × Outcome)) : SinkSession ω :=
  { s with
    outcomes := told.foldl (fun outcomes (n, outcome) => outcomes.set n (some outcome)) s.outcomes }

/-- Hands a delivery to the sink. -/
def dispatch (s : SinkSession ω) (d : Delivery) : SinkSession ω :=
  let (told, sink) := Sink.accept s.sink s.now s.outcomes.length d
  { s with sink, outcomes := s.outcomes ++ [told] }

/-- Hands a record for every shard of a stream to the sink; gives the number of shards. -/
def broadcast (s : SinkSession ω) (stream : String) (payload : Bytes) : Nat × SinkSession ω :=
  let deliveries := EventReplay.broadcast stream (Sink.shardCount s.sink stream) payload
  (deliveries.length, deliveries.foldl dispatch s)

/-- Moves the clock to a time and settles what is due then. -/
def settleAt (s : SinkSession ω) (time : Nat) : SinkSession ω :=
  let (told, sink) := Sink.runDue s.sink time
  { s with sink, now := max s.now time }.note told

/-- Settles what is due, time after time, as long as there is a next time that `goOn` takes. -/
def settleWhile (goOn : SinkSession ω → Nat → Bool) : Nat → SinkSession ω → SinkSession ω
  | 0, s => s
  | times + 1, s =>
    match Sink.nextDue s.sink with
    | none => s
    | some due => if goOn s due then settleWhile goOn times (s.settleAt due) else s

/-- Lets time pass up to some moment. -/
def passTo (s : SinkSession ω) (last : Nat) : SinkSession ω :=
  let s := s.settleWhile (fun _ due => due ≤ last) (s.outcomes.length + 1)
  { s with now := max s.now last }

/-- Waits for the outcome of a handle. -/
def waitFor (s : SinkSession ω) (handle : Nat) : Option Outcome × SinkSession ω :=
  let s := s.settleWhile (fun s _ => (s.outcomes[handle]?.join).isNone) (s.outcomes.length + 1)
  (s.outcomes[handle]?.join, s)

/-- Waits until the sink has been flushed. -/
def flush (s : SinkSession ω) : Option (Except DispatchFault Unit) × SinkSession ω :=
  let s := s.settleWhile (fun s _ => (Sink.flush s.sink).2.1.isNone) (s.outcomes.length + 1)
  let (told, answer, sink) := Sink.flush s.sink
  (answer, { s with sink }.note told)

end SinkSession

end EventReplay
