import EventReplay.Replay.AdaptTime
import EventReplay.Replay.Tracker
import EventReplay.Settings.Fault
import EventReplay.Text.Blank
import EventReplay.Text.Lowercase

/-!
# The plan of a replay

What a replay has to know before it starts. `ReplayPlan.fault?` says what speaks against a plan.

Settings give spans of time in whole milliseconds, and so does a plan. Spans are compared with readings
in whole milliseconds, so that of a finer interval or frequency only the whole part would matter; the
shortest wait is the exception, it goes into a sleep in nanoseconds as it is.
-/

set_option autoImplicit false

namespace EventReplay

/-- The policy that a text names, in any case and with blanks around it. -/
def AdaptTime.ofText (text : String) : Except SettingFault AdaptTime :=
  let name := Lowercase.ofText (trimmed text)
  match AdaptTime.ofName? name with
  | some policy => .ok policy
  | none => .error (.unknownAdaptTime name)

/-- The plan of a replay. -/
structure ReplayPlan where
  stream : String := "taxi-trip-events"
  /-- Logical time that passes in a unit of wall-clock time. -/
  speedup : Float := 6480
  /-- The shortest wait between events, in whole milliseconds, as settings give it. -/
  minSleep : Nat := 5
  /-- The most dispatches that may wait for an outcome. -/
  maxOutstanding : Nat := 50000
  adaptTime : AdaptTime := .unchanged
  /-- The time between progress lines, in whole milliseconds, as settings give it. -/
  statisticsFrequency : Nat := 60000
  watermark : WatermarkConfig := {}

/-- What speaks against marker settings. -/
def WatermarkConfig.fault? (config : WatermarkConfig) : Option SettingFault :=
  if config.eventThreshold = 0 then some (.zero "watermark.event_threshold") else none

namespace ReplayPlan

/-- Whether a speed is a finite number above zero. -/
def isSpeedup (speedup : Float) : Bool := speedup.isFinite && 0.0 < speedup

/-- What speaks against a plan, the first of it. -/
def fault? (plan : ReplayPlan) : Option SettingFault :=
  if (trimmed plan.stream).isEmpty then some .emptyStream
  else if !isSpeedup plan.speedup then some (.badSpeedup plan.speedup)
  else if plan.maxOutstanding = 0 then some (.zero "max_outstanding")
  else if plan.statisticsFrequency = 0 then some (.zero "statistics_frequency")
  else plan.watermark.fault?

end ReplayPlan

end EventReplay
