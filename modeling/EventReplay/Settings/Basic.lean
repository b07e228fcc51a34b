import EventReplay.Calendar.Instant
import EventReplay.Net.SocketAddress
import EventReplay.Replay.Plan

/-!
# Settings

All that can be set: where events come from and go to, how they are replayed, how markers come about,
where the log of the program itself goes, and where its metrics are shown. `Settings.fault?` says what
speaks against some settings and `Settings.plan` is the part of them that a replay needs.
-/

set_option autoImplicit false

namespace EventReplay

/-- Where events come from. -/
structure SourceSettings where
  root : String := "data"
  /-- The beginning that the names of segments below the root share. -/
  segments : String := "artifacts/flink-refarch/data/nyc-tlc-trips"

/-- Where events go to. -/
structure SinkSettings where
  region : String := "eu-west-1"
  stream : String := "taxi-trip-events"
  outputDirectory : String := "target/streams"
  shards : Nat := 4
  /-- Whether a batch of records is one line. -/
  aggregate : Bool := false
  maxAggregate : Nat := 100
  /-- Whether records only go to memory. -/
  dryRun : Bool := false

/-- How events are replayed. -/
structure ReplaySettings where
  speedup : Float := 6480
  /-- The time to start at, as text. -/
  seek : Option String := none
  statisticsFrequency : Nat := 60000
  adaptTime : AdaptTime := .unchanged
  minSleep : Nat := 5
  maxOutstanding : Nat := 50000

/-- How the program's own log is written. -/
inductive LogFormat where
  | structuredJson
  | pretty
deriving DecidableEq, Repr

/-- The name of a format. -/
def LogFormat.name : LogFormat → String
  | structuredJson => "structured-json"
  | pretty => "pretty"

/-- Where the program's own log goes. -/
structure LoggingSettings where
  directory : String := "target/logs"
  format : LogFormat := .pretty
  fileName : Option String := none

/-- Where metrics are shown. -/
structure MetricsSettings where
  enabled : Bool := false
  listen : SocketAddress := ⟨.v4 [0, 0, 0, 0], 9898⟩

/-- All settings. -/
structure Settings where
  source : SourceSettings := {}
  sink : SinkSettings := {}
  replay : ReplaySettings := {}
  watermark : WatermarkConfig := {}
  logging : LoggingSettings := {}
  metrics : MetricsSettings := {}

/-- What speaks against a sink, the first of it. -/
def SinkSettings.fault? (sink : SinkSettings) : Option SettingFault :=
  if (trimmed sink.stream).isEmpty then some .emptyStream
  else if sink.shards = 0 then some (.zero "shards")
  else if sink.maxAggregate = 0 then some (.zero "max_aggregate")
  else none

namespace ReplaySettings

/-- The time to start at, if there is one. -/
def seekMillis (replay : ReplaySettings) : Except SettingFault (Option Int) :=
  match replay.seek with
  | none => .ok none
  | some text =>
    match Instant.read text with
    | .ok time => .ok (some time)
    | .error cause => .error (.badTimestamp text cause)

/-- What speaks against a replay, the first of it. -/
def fault? (replay : ReplaySettings) : Option SettingFault :=
  if !ReplayPlan.isSpeedup replay.speedup then some (.badSpeedup replay.speedup)
  else if replay.statisticsFrequency = 0 then some (.zero "statistics_frequency")
  else if replay.maxOutstanding = 0 then some (.zero "max_outstanding")
  else
    match replay.seekMillis with
    | .ok _ => none
    | .error fault => some fault

end ReplaySettings

namespace Settings

/-- What speaks against some settings, the first of it. -/
def fault? (settings : Settings) : Option SettingFault :=
  settings.sink.fault? <|> settings.replay.fault? <|> settings.watermark.fault?

/-- What a replay needs of the settings. -/
def plan (settings : Settings) : ReplayPlan :=
  { stream := settings.sink.stream
    speedup := settings.replay.speedup
    minSleep := settings.replay.minSleep
    maxOutstanding := settings.replay.maxOutstanding
    adaptTime := settings.replay.adaptTime
    statisticsFrequency := settings.replay.statisticsFrequency
    watermark := settings.watermark }

end Settings

end EventReplay
