import EventReplay.Calendar.Instant
import EventReplay.Decimal.Plain

/-!
# Faults in settings

Why settings are refused, each with its wording.
-/

set_option autoImplicit false

namespace EventReplay

/-- Why settings are refused. -/
inductive SettingFault where
  /-- The speed is no finite number above zero. -/
  | badSpeedup (speedup : Float)
  /-- A field that has to be above zero is zero. -/
  | zero (field : String)
  | emptyStream
  | badTimestamp (text : String) (cause : InstantFault)
  | unknownAdaptTime (name : String)

/-- The fault in words. -/
def SettingFault.message : SettingFault → String
  | badSpeedup speedup =>
    "speedup factor must be a finite number greater than zero, got " ++ Decimal.plain speedup
  | zero field => field ++ " must be greater than zero"
  | emptyStream => "stream name cannot be empty"
  | badTimestamp text cause => cause.describe text
  | unknownAdaptTime name =>
    "unknown time adaptation '" ++ name ++ "' (expected original, invocation or ingestion)"

end EventReplay
