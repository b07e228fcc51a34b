import EventReplay.Calendar.Instant
import EventReplay.Decimal.Plain

/-!
# Progress lines

The time since the start of a replay is cut into slots. The first report in a new slot is a line that
says up to which time all events have been sent, at which rate, and how far the replay lags behind.
-/

set_option autoImplicit false

namespace EventReplay

/-- The slot of the last report and the dispatches since. -/
structure Statistics where
  /-- The length of a slot, in whole milliseconds; a fraction is cut off. -/
  frequency : Int
  start : Int
  slot : Int := 0
  dispatched : Nat := 0

namespace Statistics

/-- Statistics over slots of a length, for a replay that starts at a time. -/
def startingAt (frequency : Nat) (start : Int) : Statistics :=
  { frequency := max (min (frequency : Int) Millis.latest) 1, start }

/-- Counts a dispatch. -/
def record (s : Statistics) : Statistics := { s with dispatched := s.dispatched + 1 }

/-- The slot of a time. -/
def slotOf (s : Statistics) (now : Int) : Int := Int.tdiv (Millis.sub now s.start) s.frequency

/-- The progress line. The rate relates the dispatches to one slot. -/
def line (s : Statistics) (watermark : Option Int) (lag : Float) : String :=
  let rate := (1000.0 * Float.ofNat s.dispatched / Float.ofInt s.frequency).round
  let before := (watermark.map fun t => Instant.format (Millis.succ t)).getD "-"
  "all events with timestamp before " ++ before ++ " have been sent (" ++ Decimal.plain rate ++
    " events/sec, " ++ Decimal.plain lag.round ++ " sec replay lag)"

/-- The progress line, if a new slot has begun. -/
def maybeReport (s : Statistics) (now : Int) (watermark : Option Int) (lag : Float) :
    Option String × Statistics :=
  if s.slotOf now = s.slot then (none, s)
  else (some (s.line watermark lag), { s with slot := s.slotOf now, dispatched := 0 })

end Statistics

end EventReplay
