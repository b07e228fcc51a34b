import EventReplay.Millis

/-!
# Pacing

A replay runs faster or slower than the events once happened. `Pace.decide` compares the wall-clock
time since the start, scaled by the speed, with the logical time since the first event, and says
whether an event is due or how long to wait before asking again.
-/

set_option autoImplicit false

namespace EventReplay

/-- How a replay is paced. -/
structure Pace where
  /-- The time of the first event. -/
  origin : Int
  /-- Logical time that passes in a unit of wall-clock time. -/
  speedup : Float
  /-- The shortest wait, in whole milliseconds, as settings give it. -/
  minSleep : Nat

/-- Whether an event is due. The gap is how far the replay is behind its schedule, in logical
milliseconds; it is negative when it is ahead. -/
inductive Decision where
  | dispatch (gap : Float)
  /-- Wait so many nanoseconds before asking again. -/
  | sleep (wait : Nat) (gap : Float)

/-- The gap of a decision. -/
def Decision.gap : Decision → Float
  | dispatch gap => gap
  | sleep _ gap => gap

namespace Pace

/-- The longest wait, in nanoseconds. -/
def longestWait : Nat := 18446744073709551615999999999

/-- The wait that a count of microseconds stands for, in nanoseconds. -/
def waitOf (micros : Float) : Nat :=
  if 18446744073709551616.0 ≤ micros then longestWait else micros.toUInt64.toNat * 1000

/-- Whether an event is due when so many microseconds have passed since the start. -/
def decide (pace : Pace) (elapsed : Nat) (timestamp : Int) : Decision :=
  let passed := Float.ofNat elapsed / 1000.0 * pace.speedup
  let asked := Float.ofInt (Millis.sub timestamp pace.origin)
  let gap := passed - asked
  if 0.0 ≤ gap then .dispatch gap
  else .sleep (max (waitOf (-gap / pace.speedup * 1000.0).ceil) (pace.minSleep * 1000000)) gap

/-- The wall-clock seconds that a gap amounts to. -/
def lag (pace : Pace) (gap : Float) : Float := gap / pace.speedup / 1000.0

end Pace

end EventReplay
