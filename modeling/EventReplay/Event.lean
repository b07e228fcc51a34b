import EventReplay.Text.Bytes

/-!
# Events

A record of a historical log: when it happened, the key that keeps it with its kin, and what it says.
-/

set_option autoImplicit false

namespace EventReplay

/-- A timestamped record of the log. -/
structure Event where
  /-- The event's own time. -/
  timestamp : Int
  /-- Events with one key go to one shard. -/
  key : String
  payload : Bytes
deriving DecidableEq, Repr

end EventReplay
