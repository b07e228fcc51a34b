import EventReplay.Settings.Basic
import EventReplay.Toml.Document

/-!
# Settings in TOML

Settings are a TOML document with a table for each part, in which every key may be missing. A part may
also be an array of its values in order, and a date in the place of a part sets nothing. Keys that say
nothing are passed over.
-/

set_option autoImplicit false

namespace EventReplay.Settings

open Toml (Item)

/-! ## Single values -/

/-- A text. -/
def text? : Item → Option String
  | .scalar (.text s) => some s
  | _ => none

/-- A truth value. -/
def bool? : Item → Option Bool
  | .scalar (.bool b) => some b
  | _ => none

/-- An integer that is not negative. -/
def nat? : Item → Option Nat
  | .scalar (.integer n) => if 0 ≤ n then some n.toNat else none
  | _ => none

/-- A number with or without a fraction. -/
def float? : Item → Option Float
  | .scalar (.float x) => some x
  | .scalar (.integer n) => some (Float.ofInt n)
  | _ => none

/-- Whether an item is an array or a table with nothing in it. -/
def isEmpty : Item → Bool
  | .array [] | .table _ [] | .tables [] => true
  | _ => false

/-- A name out of some: as text, or as the only key of a table with nothing under it. -/
def choice? {α : Type} (choices : List (String × α)) : Item → Option α
  | .scalar (.text name) => choices.lookup name
  | .table _ [(name, item)] => if isEmpty item then choices.lookup name else none
  | _ => none

/-- The address that a text writes. -/
def address? (item : Item) : Option SocketAddress := (text? item).bind SocketAddress.read

/-! ## Parts -/

/-- The item under a key, which in an array is the one at its place. -/
abbrev Fields := String → Nat → Option Item

/-- The fields of a part. -/
def fields? : Item → Option Fields
  | .table _ entries => some fun key _ => entries.lookup key
  | .array items => some fun _ place => items[place]?
  | .tables all => some fun _ place => all[place]?.map (.table .header)
  | .scalar .date => some fun _ _ => none
  | .scalar _ => none

/-- The value of a field, or what it is where it is missing. -/
def Fields.value {α : Type} (fields : Fields) (key : String) (place : Nat) (value? : Item → Option α)
    (missing : α) : Option α :=
  match fields key place with
  | none => some missing
  | some item => value? item

/-- Reads where events come from. -/
def source? (item : Item) : Option SourceSettings := do
  let fields ← fields? item
  let d : SourceSettings := {}
  let root ← fields.value "root" 0 text? d.root
  let segments ← fields.value "prefix" 1 text? d.segments
  pure ⟨root, segments⟩

/-- Reads where events go to. -/
def sink? (item : Item) : Option SinkSettings := do
  let fields ← fields? item
  let d : SinkSettings := {}
  let region ← fields.value "region" 0 text? d.region
  let stream ← fields.value "stream" 1 text? d.stream
  let outputDirectory ← fields.value "output_dir" 2 text? d.outputDirectory
  let shards ← fields.value "shards" 3 nat? d.shards
  let aggregate ← fields.value "aggregate" 4 bool? d.aggregate
  let maxAggregate ← fields.value "max_aggregate" 5 nat? d.maxAggregate
  let dryRun ← fields.value "dry_run" 6 bool? d.dryRun
  pure { region, stream, outputDirectory, shards, aggregate, maxAggregate, dryRun }

/-- The names of the policies for outbound times. -/
def adaptTimes : List (String × AdaptTime) :=
  AdaptTime.all.map fun policy => (policy.name, policy)

/-- Reads how events are replayed. -/
def replay? (item : Item) : Option ReplaySettings := do
  let fields ← fields? item
  let d : ReplaySettings := {}
  let speedup ← fields.value "speedup" 0 float? d.speedup
  let seek ← fields.value "seek" 1 (fun item => (text? item).map some) d.seek
  let statisticsFrequency ← fields.value "statistics_frequency" 2 nat? d.statisticsFrequency
  let adaptTime ← fields.value "adapt_time" 3 (choice? adaptTimes) d.adaptTime
  let minSleep ← fields.value "min_sleep" 4 nat? d.minSleep
  let maxOutstanding ← fields.value "max_outstanding" 5 nat? d.maxOutstanding
  pure { speedup, seek, statisticsFrequency, adaptTime, minSleep, maxOutstanding }

/-- Reads when markers are due. -/
def watermark? (item : Item) : Option WatermarkConfig := do
  let fields ← fields? item
  let d : WatermarkConfig := {}
  let enabled ← fields.value "enabled" 0 bool? d.enabled
  let interval ← fields.value "interval" 1 nat? d.interval
  let eventThreshold ← fields.value "event_threshold" 2 nat? d.eventThreshold
  pure { enabled, interval, eventThreshold }

/-- The names of the formats of the program's own log. -/
def logFormats : List (String × LogFormat) :=
  [LogFormat.structuredJson, .pretty].map fun format => (format.name, format)

/-- Reads where the program's own log goes. -/
def logging? (item : Item) : Option LoggingSettings := do
  let fields ← fields? item
  let d : LoggingSettings := {}
  let directory ← fields.value "directory" 0 text? d.directory
  let format ← fields.value "format" 1 (choice? logFormats) d.format
  let fileName ← fields.value "file_prefix" 2 (fun item => (text? item).map some) d.fileName
  pure { directory, format, fileName }

/-- Reads where metrics are shown. -/
def metrics? (item : Item) : Option MetricsSettings := do
  let fields ← fields? item
  let d : MetricsSettings := {}
  let enabled ← fields.value "enabled" 0 bool? d.enabled
  let listen ← fields.value "listen" 1 address? d.listen
  pure { enabled, listen }

/-! ## The whole -/

/-- Reads settings from a TOML table. -/
def ofEntries? (entries : Toml.Entries) : Option Settings := do
  let fields : Fields := fun key _ => entries.lookup key
  let source ← fields.value "source" 0 source? {}
  let sink ← fields.value "sink" 1 sink? {}
  let replay ← fields.value "replay" 2 replay? {}
  let watermark ← fields.value "watermark" 3 watermark? {}
  let logging ← fields.value "logging" 4 logging? {}
  let metrics ← fields.value "metrics" 5 metrics? {}
  pure { source, sink, replay, watermark, logging, metrics }

/-- The settings that a text describes; they may still speak against themselves. -/
def ofText? (text : String) : Option Settings := (Toml.read text).bind ofEntries?

end EventReplay.Settings
