import EventReplay.Sink.Basic

/-!
# A sink in memory

`MemorySink` keeps the records that it delivers. A record that it accepts is in flight until a task of
its own completes it; the tasks may complete in any order (`MemorySink.complete`). Records are due a
fixed time after they were accepted, and `MemorySink.runDue` completes in the order in which they are
due. A predicate tells the payloads of the records that are refused.
-/

set_option autoImplicit false

namespace EventReplay

/-- A record that a sink in memory has accepted. -/
structure InFlight where
  /-- The number of the handle that its outcome goes to. -/
  handle : Nat
  /-- When it is due, in milliseconds. -/
  due : Nat
  stream : String
  shard : Nat
  key : Option String
  payload : Bytes
deriving DecidableEq, Repr

/-- A record that a sink in memory has delivered. -/
structure Delivered where
  stream : String
  shard : Nat
  key : Option String
  payload : Bytes
deriving DecidableEq, Repr

/-- A sink in memory. -/
structure MemorySink where
  shards : Nat
  /-- The time that each record stays in flight, in milliseconds. -/
  latency : Nat := 0
  /-- Whether a record with a payload is refused. -/
  refuses : Bytes → Bool := fun _ => false
  /-- The records in flight, in the order in which they were accepted. -/
  flying : List InFlight := []
  /-- The records delivered, in the order of their completion. -/
  delivered : List Delivered := []
  /-- The records refused. -/
  failed : Nat := 0
  /-- The most records that were ever in flight. -/
  peak : Nat := 0

namespace MemorySink

/-- A sink of at least one shard. -/
def fresh (shards latency : Nat) (refuses : Bytes → Bool) : MemorySink :=
  { shards := max shards 1, latency, refuses }

/-- A sink that refuses the records that hold some bytes. -/
def ofShards (shards latency : Nat) (refuses : Option Bytes) : MemorySink :=
  fresh shards latency fun payload => refuses.any (Bytes.occursIn · payload)

/-- What a delivery at a time puts in flight. -/
def record (sink : MemorySink) (now handle : Nat) (d : Delivery) : InFlight :=
  ⟨handle, now + sink.latency, d.stream, d.target.number sink.shards, d.target.key?, d.payload⟩

/-- Puts a record in flight. -/
def enqueue (sink : MemorySink) (record : InFlight) : MemorySink :=
  { sink with
    flying := sink.flying ++ [record]
    peak := max sink.peak (sink.flying.length + 1) }

/-- Accepts a record at a time. A shard that there is not is answered at once. -/
def accept (sink : MemorySink) (now handle : Nat) (d : Delivery) : Option Outcome × MemorySink :=
  let record := sink.record now handle d
  if record.shard < sink.shards then (none, sink.enqueue record)
  else (some (.failed (.unknownShard d.stream record.shard)), sink)

/-- The outcome that a record gets. -/
def outcomeOf (sink : MemorySink) (record : InFlight) : Outcome :=
  if sink.refuses record.payload then .failed (.rejected record.stream "injected failure")
  else .written

/-- Completes a record in flight. -/
def complete (sink : MemorySink) (record : InFlight) : Outcome × MemorySink :=
  let sink' := { sink with flying := sink.flying.erase record }
  match sink.outcomeOf record with
  | .written =>
    (.written,
      { sink' with
        delivered :=
          sink.delivered ++ [⟨record.stream, record.shard, record.key, record.payload⟩] })
  | .failed fault => (.failed fault, { sink' with failed := sink.failed + 1 })

/-- The time at which the next record is due. -/
def nextDue (sink : MemorySink) : Option Nat :=
  sink.flying.foldl
    (fun due record => some (match due with | none => record.due | some d => min d record.due)) none

/-- The records that are due at a time, the earliest first and of those in the order of acceptance. -/
def dueBy (sink : MemorySink) (time : Nat) : List InFlight :=
  (sink.flying.filter fun record => record.due ≤ time).mergeSort fun a b => a.due ≤ b.due

/-- Completes every record that is due at a time; gives the handles and their outcomes. -/
def runDue (sink : MemorySink) (time : Nat) : List (Nat × Outcome) × MemorySink :=
  (sink.dueBy time).foldl
    (fun (outcomes, sink) record =>
      let (outcome, sink) := sink.complete record
      (outcomes ++ [(record.handle, outcome)], sink))
    ([], sink)

/-- A flush is answered once nothing is in flight. -/
def flush (sink : MemorySink) : Option (Except DispatchFault Unit) :=
  if sink.flying.isEmpty then some (.ok ()) else none

instance : Sink MemorySink where
  shardCount sink _ := sink.shards
  accept := accept
  nextDue := nextDue
  runDue := runDue
  flush sink := ([], sink.flush, sink)

end MemorySink

end EventReplay
