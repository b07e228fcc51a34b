import EventReplay.Millis
import EventReplay.Record.Encode

/-!
# The watermark tracker

The tracker holds the outbound time of every dispatch without an outcome, as a sorted list of times with
their counts, and derives the watermark from the least of them: just below it, or, with no dispatch
under way, the greatest time that has completed, but below the next one to be dispatched. A watermark
that has been settled never goes back.

Markers are due when some time has passed or enough events were dispatched since the last one.
-/

set_option autoImplicit false

namespace EventReplay

/-- When markers are due. -/
structure WatermarkConfig where
  enabled : Bool := true
  /-- The time between markers, in whole milliseconds: that is how settings give it, and all that the
  tracker looks at. A span with a fraction of a millisecond acts as the whole part of it. -/
  interval : Nat := 5000
  /-- The number of dispatches that make a marker due. -/
  eventThreshold : Nat := 100000
deriving DecidableEq, Repr

/-! ## Times and their counts -/

/-- Adds a time to a sorted list of times with counts. -/
def countIn (t : Int) : List (Int × Nat) → List (Int × Nat)
  | [] => [(t, 1)]
  | (u, n) :: rest =>
    if t < u then (t, 1) :: (u, n) :: rest
    else if t = u then (u, n + 1) :: rest
    else (u, n) :: countIn t rest

/-- Takes one of a time out of a sorted list of times with counts, if the time is in it. -/
def countOut (t : Int) : List (Int × Nat) → Option (List (Int × Nat))
  | [] => none
  | (u, n) :: rest =>
    if t = u then some (if n ≤ 1 then rest else (u, n - 1) :: rest)
    else (countOut t rest).map ((u, n) :: ·)

/-! ## The tracker -/

/-- The dispatches without outcome, and when the last marker was due. -/
structure Tracker where
  config : WatermarkConfig
  /-- The outbound times of the dispatches without outcome, sorted, with their counts. -/
  outstanding : List (Int × Nat) := []
  /-- The number of dispatches without outcome. -/
  size : Nat := 0
  /-- The greatest time of a dispatch with an outcome. -/
  lastCompleted : Option Int := none
  /-- The watermark settled last. -/
  current : Option Int := none
  /-- When a marker was last due, or the replay started. -/
  lastEmit : Int
  /-- The dispatches since then. -/
  eventsSinceEmit : Nat := 0
  /-- The markers broadcast. -/
  emitted : Nat := 0
  lastEmitted : Option Watermark := none

namespace Tracker

/-- A tracker for a replay that starts at a time. -/
def startingAt (config : WatermarkConfig) (start : Int) : Tracker := { config, lastEmit := start }

/-- A dispatch with some outbound time begins. -/
def track (tracker : Tracker) (t : Int) : Tracker :=
  { tracker with
    outstanding := countIn t tracker.outstanding
    size := tracker.size + 1
    eventsSinceEmit := tracker.eventsSinceEmit + 1 }

/-- A dispatch with some outbound time has an outcome. -/
def complete (tracker : Tracker) (t : Int) : Tracker :=
  let lastCompleted := some ((tracker.lastCompleted.map (max t)).getD t)
  match countOut t tracker.outstanding with
  | some outstanding => { tracker with outstanding, size := tracker.size - 1, lastCompleted }
  | none => { tracker with lastCompleted }

/-- The watermark that the dispatches allow, when the next one will not be earlier than the horizon. -/
def candidate (tracker : Tracker) (horizon : Option Int) : Option Int :=
  match tracker.outstanding with
  | (least, _) :: _ => some (Millis.pred least)
  | [] =>
    tracker.lastCompleted.map fun completed =>
      match horizon with
      | some next => min completed (Millis.pred next)
      | none => completed

/-- The later of two watermarks, where there are two. -/
def later : Option Int → Option Int → Option Int
  | some a, some b => some (max a b)
  | some a, none => some a
  | none, b => b

/-- Settles the watermark. -/
def settle (tracker : Tracker) (horizon : Option Int) : Option Int × Tracker :=
  let current := later tracker.current (tracker.candidate horizon)
  (current, { tracker with current })

/-- Whether a marker is due. -/
def isDue (tracker : Tracker) (now : Int) : Bool :=
  min (tracker.config.interval : Int) Millis.latest ≤ Millis.sub now tracker.lastEmit ||
    tracker.config.eventThreshold ≤ tracker.eventsSinceEmit

/-- Makes the marker of a watermark, unless there are to be none. -/
def mark (tracker : Tracker) (now value : Int) : Option Watermark × Tracker :=
  if tracker.config.enabled then
    let watermark : Watermark := ⟨value, now⟩
    (some watermark,
      { tracker with emitted := tracker.emitted + 1, lastEmitted := some watermark })
  else (none, tracker)

/-- Makes a marker if one is due and there is a watermark. Without a watermark it stays due. -/
def maybeEmit (tracker : Tracker) (now : Int) (horizon : Option Int) :
    Option Watermark × Tracker :=
  if tracker.isDue now then
    match tracker.settle horizon with
    | (none, tracker) => (none, tracker)
    | (some value, tracker) =>
      { tracker with lastEmit := now, eventsSinceEmit := 0 }.mark now value
  else (none, tracker)

/-- Makes a marker whether or not one is due, if there is a watermark. -/
def emitNow (tracker : Tracker) (now : Int) (horizon : Option Int) : Option Watermark × Tracker :=
  match tracker.settle horizon with
  | (none, tracker) => (none, tracker)
  | (some value, tracker) => tracker.mark now value

end Tracker

end EventReplay
