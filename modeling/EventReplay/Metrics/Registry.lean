import EventReplay.Millis

/-!
# Metrics

The counters and gauges that a replay and its daemon keep. A registry has at most one set of each kind,
since two sets of one kind would share their names.
-/

set_option autoImplicit false

namespace EventReplay

/-- How far a replay into one stream has come. -/
structure ReplayMetrics where
  stream : String
  dispatched : Nat := 0
  failures : Nat := 0
  outstanding : Int := 0
  watermark : Int := 0
  lag : Float := 0
  watermarksEmitted : Nat := 0

namespace ReplayMetrics

/-- An event was handed to the sink. -/
def recordDispatch (m : ReplayMetrics) : ReplayMetrics := { m with dispatched := m.dispatched + 1 }

/-- A dispatch failed. -/
def recordFailure (m : ReplayMetrics) : ReplayMetrics := { m with failures := m.failures + 1 }

/-- So many dispatches wait for an outcome; the gauge is a signed word. -/
def setOutstanding (m : ReplayMetrics) (outstanding : Nat) : ReplayMetrics :=
  { m with outstanding := Millis.wrap outstanding }

/-- A marker was broadcast. -/
def recordWatermark (m : ReplayMetrics) (value : Int) : ReplayMetrics :=
  { m with watermark := value, watermarksEmitted := m.watermarksEmitted + 1 }

/-- The replay lags behind by so many seconds. -/
def setLag (m : ReplayMetrics) (seconds : Float) : ReplayMetrics := { m with lag := seconds }

end ReplayMetrics

/-- Observations by size. -/
structure Histogram where
  /-- The upper bounds of the buckets, ascending. -/
  bounds : List Float
  /-- The observations, latest first. -/
  observations : List Float := []

namespace Histogram

/-- So many bounds, each the double of the one before. -/
def doubling (first : Float) : Nat → List Float
  | 0 => []
  | n + 1 => first :: doubling (first * 2) n

/-- The number of observations that do not exceed a bound. -/
def countUpTo (h : Histogram) (bound : Float) : Nat :=
  (h.observations.filter fun x => x ≤ bound).length

/-- The sum of the observations in the order in which they were made. -/
def sum (h : Histogram) : Float := h.observations.foldr (fun x total => total + x) 0

/-- Makes an observation. -/
def observe (h : Histogram) (x : Float) : Histogram :=
  { h with observations := x :: h.observations }

end Histogram

/-- What the daemon itself has done. -/
structure DaemonMetrics where
  starts : Nat := 0
  /-- The seconds that loading the configuration took. -/
  configLoads : Histogram := { bounds := Histogram.doubling 0.001 16 }
  /-- The version and profile of each build that ran, without repetition. -/
  builds : List (String × String) := []

namespace DaemonMetrics

/-- The daemon started. -/
def recordStart (m : DaemonMetrics) : DaemonMetrics := { m with starts := m.starts + 1 }

/-- Loading the configuration took so many seconds. -/
def observeConfigLoad (m : DaemonMetrics) (seconds : Float) : DaemonMetrics :=
  { m with configLoads := m.configLoads.observe seconds }

/-- A build runs. -/
def setBuild (m : DaemonMetrics) (version profile : String) : DaemonMetrics :=
  if (version, profile) ∈ m.builds then m else { m with builds := m.builds ++ [(version, profile)] }

end DaemonMetrics

/-- The sets of metrics that are exported together. -/
structure Registry where
  replay : Option ReplayMetrics := none
  daemon : Option DaemonMetrics := none

/-- Why a set of metrics cannot be added. -/
inductive RegistryFault where
  | duplicate
deriving DecidableEq, Repr

/-- The fault in words. -/
def RegistryFault.message : RegistryFault → String
  | duplicate => "Duplicate metrics collector registration attempted"

namespace Registry

/-- Adds the metrics of a replay into a stream. -/
def addReplay (registry : Registry) (stream : String) : Except RegistryFault Registry :=
  match registry.replay with
  | none => .ok { registry with replay := some { stream } }
  | some _ => .error .duplicate

/-- Adds the metrics of the daemon. -/
def addDaemon (registry : Registry) : Except RegistryFault Registry :=
  match registry.daemon with
  | none => .ok { registry with daemon := some {} }
  | some _ => .error .duplicate

/-- Updates the metrics of the replay, if there are any. -/
def onReplay (registry : Registry) (f : ReplayMetrics → ReplayMetrics) : Registry :=
  { registry with replay := registry.replay.map f }

/-- Updates the metrics of the daemon, if there are any. -/
def onDaemon (registry : Registry) (f : DaemonMetrics → DaemonMetrics) : Registry :=
  { registry with daemon := registry.daemon.map f }

end Registry

end EventReplay
