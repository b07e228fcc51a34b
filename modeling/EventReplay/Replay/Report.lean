import EventReplay.Outcome
import EventReplay.Settings.Fault
import EventReplay.Source

/-!
# How a replay ends

A replay ends with a report, or with the fault that stopped it. A dispatch that fails stops nothing: it
is counted in the report.
-/

set_option autoImplicit false

namespace EventReplay

/-- What a replay has to tell at its end. -/
structure ReplayReport where
  stream : String
  /-- The events that the sink was handed. -/
  dispatched : Nat := 0
  /-- The dispatches that the sink told to have failed. -/
  failed : Nat := 0
  /-- The events left out for want of an encoding. Every event has one. -/
  encodeErrors : Nat := 0
  watermarksEmitted : Nat := 0
  lastWatermark : Option Int := none
  firstTimestamp : Option Int := none
  lastTimestamp : Option Int := none
  /-- The most dispatches that ever waited for an outcome. -/
  peakOutstanding : Nat := 0
  /-- The milliseconds from start to end. -/
  elapsed : Nat := 0
deriving DecidableEq, Repr

/-- Why a replay stops before its end. -/
inductive ReplayFault where
  | settings (fault : SettingFault)
  | source (fault : SourceFault)
  /-- The sink could not be flushed at the end. -/
  | sink (fault : DispatchFault)
  /-- The gate was closed while the replay waited at it. -/
  | gateClosed

/-- The fault in words. -/
def ReplayFault.message : ReplayFault → String
  | settings fault => "invalid replay configuration: " ++ fault.message
  | source fault => fault.message
  | sink fault => "sink error: " ++ fault.message
  | gateClosed => "backpressure gate closed"

/-- What is behind the fault, the nearest cause first. -/
def ReplayFault.causes : ReplayFault → List String
  | settings fault => [fault.message]
  | source fault => fault.causes
  | sink fault => [fault.message]
  | gateClosed => []

end EventReplay
