import EventReplay.Decimal.Plain
import EventReplay.Metrics.Registry
import EventReplay.Text.Utf8

/-!
# Metrics as text

The text exposition format: for each family of metrics, in the order of their names, a line of help, a
line with the type, and a line for each sample. Samples of one family come in the order of their label
values. A family without samples is left out.
-/

set_option autoImplicit false

namespace EventReplay.Metrics

/-- The type of a family. -/
inductive Kind where
  | counter
  | gauge
  | histogram

/-- The name of a type. -/
def Kind.name : Kind → String
  | counter => "counter"
  | gauge => "gauge"
  | histogram => "histogram"

/-- One line of a family. -/
structure Sample where
  /-- What follows the family's name. -/
  suffix : String := ""
  /-- The labels in the order of their names. -/
  labels : List (String × String) := []
  value : Float

/-- Samples that share a name. -/
structure Family where
  name : String
  help : String
  kind : Kind
  samples : List Sample

/-- A label value between quotes. -/
def escapeLabel (value : String) : String :=
  String.ofList <| value.toList.flatMap fun c =>
    if c = '\\' then ['\\', '\\']
    else if c = '\n' then ['\\', 'n']
    else if c = '"' then ['\\', '"']
    else [c]

/-- Labels in braces, if there are any. -/
def labelsText (labels : List (String × String)) : String :=
  if labels.isEmpty then ""
  else "\x7b" ++ String.intercalate "," (labels.map fun (name, value) =>
    name ++ "=\"" ++ escapeLabel value ++ "\"") ++ "\x7d"

/-- The lines of a family. -/
def Family.text (family : Family) : String :=
  if family.samples.isEmpty then ""
  else
    "# HELP " ++ family.name ++ " " ++ family.help ++ "\n" ++
    "# TYPE " ++ family.name ++ " " ++ family.kind.name ++ "\n" ++
    String.join (family.samples.map fun sample =>
      family.name ++ sample.suffix ++ labelsText sample.labels ++ " " ++
        Decimal.plain sample.value ++ "\n")

/-- The samples of a histogram: how many observations do not exceed each bound, their sum and their
number. -/
def histogramSamples (h : Histogram) : List Sample :=
  let count := Float.ofNat h.observations.length
  (h.bounds.map fun bound =>
      { suffix := "_bucket", labels := [("le", Decimal.plain bound)],
        value := Float.ofNat (h.countUpTo bound) }) ++
    [{ suffix := "_bucket", labels := [("le", "+Inf")], value := count },
      { suffix := "_sum", value := h.sum }, { suffix := "_count", value := count }]

/-- The families of a replay. -/
def replayFamilies (m : ReplayMetrics) : List Family :=
  let family (name help : String) (kind : Kind) (value : Float) : Family :=
    ⟨name, help, kind, [{ labels := [("stream", m.stream)], value }]⟩
  [family "sfeed_dispatch_failures_total" "Dispatches the sink client reported as failed" .counter
      (Float.ofNat m.failures),
    family "sfeed_events_dispatched_total" "Events handed to the sink client" .counter
      (Float.ofNat m.dispatched),
    family "sfeed_outstanding_dispatches" "Dispatches waiting for a completion" .gauge
      (Float.ofInt m.outstanding),
    family "sfeed_replay_lag_seconds"
      "Wall-clock distance between scaled logical time and the replay position" .gauge m.lag,
    family "sfeed_watermark_ms" "Last emitted watermark in epoch ms" .gauge
      (Float.ofInt m.watermark),
    family "sfeed_watermarks_emitted_total" "Watermark markers broadcast to the stream" .counter
      (Float.ofNat m.watermarksEmitted)]

/-- Whether one text comes before another, or is the same, by their bytes. -/
def textLe (a b : String) : Bool := Bytes.le (Utf8.encode a) (Utf8.encode b)

/-- Whether a build comes before another, or is the same: by profile, then by version. -/
def buildLe (a b : String × String) : Bool :=
  if a.2 = b.2 then textLe a.1 b.1 else textLe a.2 b.2

/-- The families of the daemon. -/
def daemonFamilies (m : DaemonMetrics) : List Family :=
  [⟨"sfeedd_build_info", "Build metadata for the running binary", .gauge,
      (m.builds.mergeSort buildLe).map fun (version, profile) =>
        { labels := [("profile", profile), ("version", version)], value := 1 }⟩,
    ⟨"sfeedd_config_load_seconds", "Time spent loading and validating configuration", .histogram,
      histogramSamples m.configLoads⟩,
    ⟨"sfeedd_starts_total", "Total number of times the replay daemon has initialised", .counter,
      [{ value := Float.ofNat m.starts }]⟩]

end EventReplay.Metrics

namespace EventReplay

/-- All metrics of a registry as text. -/
def Registry.text (registry : Registry) : String :=
  let families :=
    (registry.replay.map Metrics.replayFamilies).getD [] ++
      (registry.daemon.map Metrics.daemonFamilies).getD []
  String.join ((families.mergeSort fun a b => Metrics.textLe a.name b.name).map Metrics.Family.text)

end EventReplay
