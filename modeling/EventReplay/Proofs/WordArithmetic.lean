import EventReplay.Proofs.OpenTimes
import EventReplay.Replay.AdaptTime
import EventReplay.Replay.Pace
import EventReplay.Replay.Statistics

/-!
# Arithmetic on words

The times of a replay are signed 64-bit words, and so is all that is worked out from them. A function
with a question mark is the one without, worked out on words: it is undefined where a number does not
fit its word, or where something is divided by zero. What is worked out from times that fit is always
defined, as the operations hold their results in range and a slot is at least a millisecond long.
-/

set_option autoImplicit false

namespace EventReplay

/-! ## Operations -/

namespace Millis

variable {s t : Int}

theorem word?_of_inRange {f : Int → Int → Int} (hs : InRange s) (ht : InRange t)
    (hf : InRange (f s t)) : word? f s t = some (f s t) := if_pos ⟨hs, ht, hf⟩

theorem word?_eq_none {f : Int → Int → Int} (hf : ¬ InRange (f s t)) : word? f s t = none :=
  if_neg fun h => hf h.2.2

theorem word?_add (hs : InRange s) (ht : InRange t) : word? add s t = some (add s t) :=
  word?_of_inRange hs ht (inRange_clamp _)

theorem word?_sub (hs : InRange s) (ht : InRange t) : word? sub s t = some (sub s t) :=
  word?_of_inRange hs ht (inRange_clamp _)

theorem inRange_one : InRange 1 := by decide

/-- The quotient of two times. -/
def quotient? (s t : Int) : Option Int := if t = 0 then none else word? Int.tdiv s t

theorem inRange_tdiv (hs : InRange s) (ht : 0 ≤ t) : InRange (s.tdiv t) := by
  have hsize := Int.natAbs_tdiv_le_natAbs s t
  simp only [InRange, earliest, latest] at hs ⊢
  by_cases hnonneg : 0 ≤ s
  · have hquotient := Int.tdiv_nonneg hnonneg ht
    omega
  · have hquotient := Int.tdiv_nonneg (a := -s) (by omega) ht
    rw [Int.neg_tdiv] at hquotient
    omega

theorem quotient?_of_pos (hs : InRange s) (ht : InRange t) (hpos : 1 ≤ t) :
    quotient? s t = some (s.tdiv t) := by
  unfold quotient?
  rw [if_neg (by omega)]
  exact word?_of_inRange hs ht (inRange_tdiv hs (by omega))

end Millis

/-! ## Outbound times and pacing -/

/-- The outbound time of an event, worked out on words. -/
def AdaptTime.outbound? (policy : AdaptTime) (start origin timestamp now : Int) : Option Int :=
  match policy with
  | unchanged => some timestamp
  | invocation => do
    let passed ← Millis.word? Millis.sub timestamp origin
    Millis.word? Millis.add start passed
  | ingestion => some now

theorem AdaptTime.outbound?_eq (policy : AdaptTime) {start origin timestamp now : Int}
    (hstart : Millis.InRange start) (horigin : Millis.InRange origin)
    (htimestamp : Millis.InRange timestamp) :
    policy.outbound? start origin timestamp now =
      some (policy.outbound start origin timestamp now) := by
  cases policy with
  | unchanged => rfl
  | invocation =>
      unfold outbound?
      rw [Millis.word?_sub htimestamp horigin]
      exact Millis.word?_add hstart (Millis.inRange_clamp _)
  | ingestion => rfl

/-- Whether an event is due, worked out on words. -/
def Pace.decide? (pace : Pace) (elapsed : Nat) (timestamp : Int) : Option Decision := do
  let span ← Millis.word? Millis.sub timestamp pace.origin
  let gap := Float.ofNat elapsed / 1000.0 * pace.speedup - Float.ofInt span
  if 0.0 ≤ gap then return .dispatch gap
  else
    let wait := Pace.waitOf (-gap / pace.speedup * 1000.0).ceil
    return .sleep (max wait (pace.minSleep * 1000000)) gap

theorem Pace.decide?_eq (pace : Pace) (elapsed : Nat) {timestamp : Int}
    (horigin : Millis.InRange pace.origin) (htimestamp : Millis.InRange timestamp) :
    pace.decide? elapsed timestamp = some (pace.decide elapsed timestamp) := by
  unfold decide? decide
  rw [Millis.word?_sub htimestamp horigin]
  dsimp only [Option.bind_eq_bind, Option.bind_some]
  split <;> rfl

/-! ## The tracker -/

namespace Tracker

variable {tracker : Tracker} {now : Int} {horizon : Option Int}

/-- All times in a tracker fit their words. -/
structure Fits (tracker : Tracker) : Prop where
  outstanding : ∀ t ∈ timesOf tracker.outstanding, Millis.InRange t
  counted : WellCounted tracker.outstanding
  lastCompleted : ∀ t ∈ tracker.lastCompleted, Millis.InRange t
  current : ∀ w ∈ tracker.current, Millis.InRange w
  lastEmit : Millis.InRange tracker.lastEmit

/-- The watermark that the dispatches allow, worked out on words. -/
def candidate? (tracker : Tracker) (horizon : Option Int) : Option (Option Int) :=
  match tracker.outstanding with
  | (least, _) :: _ => (Millis.word? Millis.sub least 1).map some
  | [] =>
    match tracker.lastCompleted, horizon with
    | none, _ => some none
    | some completed, none => some (some completed)
    | some completed, some next => do
      let bound ← Millis.word? Millis.sub next 1
      return some (min completed bound)

theorem candidate?_eq (h : tracker.Fits) (hhorizon : ∀ t ∈ horizon, Millis.InRange t) :
    tracker.candidate? horizon = some (tracker.candidate horizon) := by
  unfold candidate? candidate
  cases hout : tracker.outstanding with
  | cons c counts =>
      have hwell := h.counted
      have htimes := h.outstanding
      rw [hout] at hwell htimes
      have hleast := htimes _ (least_timesOf hwell).1
      show (Millis.word? Millis.sub c.1 1).map some = _
      rw [Millis.word?_sub hleast Millis.inRange_one]
      rfl
  | nil =>
      cases tracker.lastCompleted with
      | none => rfl
      | some completed =>
          cases horizon with
          | none => rfl
          | some next =>
              have hnext := hhorizon next rfl
              show (Millis.word? Millis.sub next 1).bind _ = _
              rw [Millis.word?_sub hnext Millis.inRange_one]
              rfl

/-- What the dispatches allow fits its word. -/
theorem Fits.candidate (h : tracker.Fits) :
    ∀ w ∈ tracker.candidate horizon, Millis.InRange w := by
  intro w hw
  unfold Tracker.candidate at hw
  split at hw
  · obtain rfl := Option.some.inj hw
    exact Millis.inRange_clamp _
  · obtain ⟨completed, hcompleted, rfl⟩ := Option.map_eq_some_iff.mp hw
    have hfits := h.lastCompleted completed hcompleted
    cases horizon with
    | none => exact hfits
    | some next =>
        have hpred : Millis.InRange (Millis.pred next) := Millis.inRange_clamp _
        exact ⟨le_min hfits.1 hpred.1, (min_le_left _ _).trans hfits.2⟩

/-- Settles the watermark, on words. -/
def settle? (tracker : Tracker) (horizon : Option Int) : Option (Option Int × Tracker) := do
  let candidate ← tracker.candidate? horizon
  let current := later tracker.current candidate
  return (current, { tracker with current })

theorem settle?_eq (h : tracker.Fits) (hhorizon : ∀ t ∈ horizon, Millis.InRange t) :
    tracker.settle? horizon = some (tracker.settle horizon) := by
  unfold settle?
  rw [candidate?_eq h hhorizon]
  rfl

theorem Fits.settle (h : tracker.Fits) : ∀ w ∈ (tracker.settle horizon).1, Millis.InRange w := by
  intro w hw
  obtain ⟨hcurrent | hcandidate, -⟩ := settle_cases hw
  · exact h.current w hcurrent
  · exact h.candidate w hcandidate

/-- Whether a marker is due, worked out on words. -/
def isDue? (tracker : Tracker) (now : Int) : Option Bool := do
  let passed ← Millis.word? Millis.sub now tracker.lastEmit
  return min (tracker.config.interval : Int) Millis.latest ≤ passed ||
    tracker.config.eventThreshold ≤ tracker.eventsSinceEmit

theorem isDue?_eq (h : tracker.Fits) (hnow : Millis.InRange now) :
    tracker.isDue? now = some (tracker.isDue now) := by
  unfold isDue?
  rw [Millis.word?_sub hnow h.lastEmit]
  rfl

/-- Makes a marker if one is due and there is a watermark, on words. -/
def maybeEmit? (tracker : Tracker) (now : Int) (horizon : Option Int) :
    Option (Option Watermark × Tracker) := do
  if ← tracker.isDue? now then
    match ← tracker.settle? horizon with
    | (none, tracker) => return (none, tracker)
    | (some value, tracker) =>
      return { tracker with lastEmit := now, eventsSinceEmit := 0 }.mark now value
  else return (none, tracker)

theorem maybeEmit?_eq (h : tracker.Fits) (hnow : Millis.InRange now)
    (hhorizon : ∀ t ∈ horizon, Millis.InRange t) :
    tracker.maybeEmit? now horizon = some (tracker.maybeEmit now horizon) := by
  unfold maybeEmit? maybeEmit
  rw [isDue?_eq h hnow, settle?_eq h hhorizon]
  dsimp only [Option.bind_eq_bind, Option.bind_some]
  by_cases hdue : tracker.isDue now = true
  · rw [if_pos hdue, if_pos hdue]
    rcases tracker.settle horizon with ⟨_ | value, tracker'⟩ <;> rfl
  · rw [if_neg hdue, if_neg hdue]
    rfl

/-- Makes a marker whether or not one is due, on words. -/
def emitNow? (tracker : Tracker) (now : Int) (horizon : Option Int) :
    Option (Option Watermark × Tracker) := do
  match ← tracker.settle? horizon with
  | (none, tracker) => return (none, tracker)
  | (some value, tracker) => return tracker.mark now value

theorem emitNow?_eq (h : tracker.Fits) (hhorizon : ∀ t ∈ horizon, Millis.InRange t) :
    tracker.emitNow? now horizon = some (tracker.emitNow now horizon) := by
  unfold emitNow? emitNow
  rw [settle?_eq h hhorizon]
  dsimp only [Option.bind_eq_bind, Option.bind_some]
  rcases tracker.settle horizon with ⟨_ | value, tracker'⟩ <;> rfl

end Tracker

/-! ## Statistics -/

namespace Statistics

variable {s : Statistics} {now : Int} {watermark : Option Int}

/-- The times of the statistics fit their words, and a slot has a length. -/
structure Fits (s : Statistics) : Prop where
  start : Millis.InRange s.start
  frequency : Millis.InRange s.frequency
  positive : 1 ≤ s.frequency

theorem fits_startingAt (frequency : Nat) {start : Int} (hstart : Millis.InRange start) :
    (startingAt frequency start).Fits := by
  refine ⟨hstart, ?_, ?_⟩
  · simp only [startingAt, Millis.InRange, Millis.earliest, Millis.latest]
    omega
  · exact le_max_right _ _

/-- The slot of a time, worked out on words. -/
def slotOf? (s : Statistics) (now : Int) : Option Int := do
  let passed ← Millis.word? Millis.sub now s.start
  Millis.quotient? passed s.frequency

theorem slotOf?_eq (h : s.Fits) (hnow : Millis.InRange now) : s.slotOf? now = some (s.slotOf now) := by
  unfold slotOf?
  rw [Millis.word?_sub hnow h.start]
  exact Millis.quotient?_of_pos (Millis.inRange_clamp _) h.frequency h.positive

/-- The progress line, worked out on words. -/
def line? (s : Statistics) (watermark : Option Int) (lag : Float) : Option String := do
  let rate := (1000.0 * Float.ofNat s.dispatched / Float.ofInt s.frequency).round
  let behind ← watermark.mapM fun t => Millis.word? Millis.add t 1
  let before := (behind.map Instant.format).getD "-"
  return "all events with timestamp before " ++ before ++ " have been sent (" ++ Decimal.plain rate ++
    " events/sec, " ++ Decimal.plain lag.round ++ " sec replay lag)"

theorem line?_eq (hwatermark : ∀ w ∈ watermark, Millis.InRange w) (lag : Float) :
    s.line? watermark lag = some (s.line watermark lag) := by
  cases watermark with
  | none => rfl
  | some w =>
      have hw := hwatermark w rfl
      unfold line?
      rw [show (some w).mapM (fun t => Millis.word? Millis.add t 1) = some (some (Millis.succ w)) from
        congrArg (Option.map some) (Millis.word?_add hw Millis.inRange_one)]
      rfl

/-- The progress line, if a new slot has begun, worked out on words. -/
def maybeReport? (s : Statistics) (now : Int) (watermark : Option Int) (lag : Float) :
    Option (Option String × Statistics) := do
  let slot ← s.slotOf? now
  if slot = s.slot then return (none, s)
  else
    let line ← s.line? watermark lag
    return (some line, { s with slot, dispatched := 0 })

theorem maybeReport?_eq (h : s.Fits) (hnow : Millis.InRange now)
    (hwatermark : ∀ w ∈ watermark, Millis.InRange w) (lag : Float) :
    s.maybeReport? now watermark lag = some (s.maybeReport now watermark lag) := by
  unfold maybeReport? maybeReport
  rw [slotOf?_eq h hnow, line?_eq hwatermark]
  dsimp only [Option.bind_eq_bind, Option.bind_some]
  split <;> rfl

theorem Fits.maybeReport (h : s.Fits) (now : Int) (watermark : Option Int) (lag : Float) :
    (s.maybeReport now watermark lag).2.Fits := by
  unfold Statistics.maybeReport
  split
  · exact h
  · exact ⟨h.start, h.frequency, h.positive⟩

end Statistics

end EventReplay
