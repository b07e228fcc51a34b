import EventReplay.Log.Line

/-!
# Notices

What a replay tells its operator while it runs: lines that it had to skip, writes that failed, the
state that it is in and how far it has come.
-/

set_option autoImplicit false

namespace EventReplay

/-- The states of a replay. -/
inductive ReplayState where
  | running
  | draining
  | terminated
deriving DecidableEq, Repr

/-- The name of a state. -/
def ReplayState.name : ReplayState → String
  | running => "Running"
  | draining => "Draining"
  | terminated => "Terminated"

/-- A line for the operator. -/
inductive Notice where
  /-- A line of a segment is not a record. -/
  | malformedRecord (segment : String) (line : Nat) (fault : LogLineFault)
  /-- A record is older than the one before it. -/
  | outOfOrder (segment : String) (line : Nat) (timestamp previous : Int)
  /-- A batch was refused and is kept. -/
  | bulkFlushFailed (error : String) (buffered : Nat)
  /-- A batch was refused at a checkpoint and is tried again. -/
  | checkpointFailed (error : String) (attempts buffered : Nat)
  /-- An event is left out for want of an encoding. -/
  | encodingFailed (timestamp : Int) (error : String)
  /-- An event did not reach its stream. -/
  | dispatchFailed (timestamp : Int) (key : String) (error : String)
  /-- A watermark marker did not reach its shard. -/
  | markerFailed (shard : Nat) (watermark : Int) (error : String)
  /-- The replay enters a state. -/
  | state (s : ReplayState)
  /-- How far the replay has come, in words. -/
  | progress (text : String)
deriving DecidableEq, Repr

namespace Notice

/-- The text of a notice. -/
def text : Notice → String
  | malformedRecord .. => "skipping malformed record"
  | outOfOrder .. => "skipping out-of-order record"
  | bulkFlushFailed .. => "bulk flush failed; retrying on next document"
  | checkpointFailed .. => "checkpoint flush failed; retrying"
  | encodingFailed .. => "dropping event that failed to encode"
  | dispatchFailed .. => "dispatch failed"
  | markerFailed .. => "watermark marker failed"
  | state _ => "replay state"
  | progress text => text

/-- The particulars of a notice. -/
def fields : Notice → List (String × String)
  | malformedRecord segment line fault =>
    [("segment", segment), ("line", toString line), ("reason", fault.message)]
  | outOfOrder segment line timestamp previous =>
    [("segment", segment), ("line", toString line), ("timestamp", toString timestamp),
      ("previous", toString previous)]
  | bulkFlushFailed error buffered => [("error", error), ("buffered", toString buffered)]
  | checkpointFailed error attempts buffered =>
    [("error", error), ("attempts", toString attempts), ("buffered", toString buffered)]
  | encodingFailed timestamp error => [("timestamp", toString timestamp), ("error", error)]
  | dispatchFailed timestamp key error =>
    [("timestamp", toString timestamp), ("partition_key", key), ("error", error)]
  | markerFailed shard watermark error =>
    [("shard", toString shard), ("watermark", toString watermark), ("error", error)]
  | state s => [("state", s.name)]
  | progress _ => []

end Notice

end EventReplay
