/-!
# Outcomes of a dispatch

A sink answers each record that it was handed with an outcome: written, or one of a few faults.
-/

set_option autoImplicit false

namespace EventReplay

/-- Why a record did not reach its stream. -/
inductive DispatchFault where
  /-- The destination refuses the record. -/
  | rejected (stream reason : String)
  | unknownStream (stream : String)
  | unknownShard (stream : String) (shard : Nat)
  | io (reason : String)
  /-- The sink ended before it wrote the record. -/
  | shutdown
  /-- The sink gave the record up without an answer. -/
  | abandoned
deriving DecidableEq, Repr

/-- The fault in words. -/
def DispatchFault.message : DispatchFault → String
  | rejected stream reason => "record rejected by stream " ++ stream ++ ": " ++ reason
  | unknownStream stream => "unknown stream " ++ stream
  | unknownShard stream shard =>
    "shard " ++ toString shard ++ " out of range for stream " ++ stream
  | io reason => "io error: " ++ reason
  | shutdown => "sink shut down before the record was written"
  | abandoned => "dispatch abandoned without a result"

/-- What became of a record. -/
inductive Outcome where
  | written
  | failed (fault : DispatchFault)
deriving DecidableEq, Repr

/-- The fault of a record that was not written. -/
def Outcome.fault? : Outcome → Option DispatchFault
  | written => none
  | failed fault => some fault

end EventReplay
