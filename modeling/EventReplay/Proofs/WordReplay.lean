import Mathlib.Logic.Function.Iterate
import EventReplay.Proofs.MarkerCadence
import EventReplay.Proofs.WordArithmetic
import EventReplay.Replay.Rehearsal
import EventReplay.Sink.Memory

/-!
# Replays on words

A replay worked out on words is the replay itself, as long as the wall clock shows the time when it is
read: all times that a replay holds fit their words (`Replay.Fits`), so that nothing else that it works
out can leave them. An anchored clock fails where the sum that it shows does not fit, and always if its
anchor is negative (`WallClock.read_anchored`). `Replay.defined_iff_clock_shows` puts both together for
every replay.
-/

set_option autoImplicit false

namespace EventReplay

/-! ## Anchored clocks -/

namespace WallClock

variable {clock : WallClock} {anchor now : Int} {elapsed : Nat}

/-- An anchored clock shows no time before 1970, as what would be left until the latest time leaves its
word. From there on it shows the sum while that fits, and after a span that fits no word the latest
time. -/
theorem read_anchored (hanchor : Millis.InRange anchor) (elapsed : Nat) :
    (anchored anchor).read elapsed =
      if anchor < 0 then .error .difference
      else if (elapsed : Int) ≤ Millis.latest ∧ Millis.latest < anchor + elapsed then .error .sum
      else .ok (min (anchor + elapsed) Millis.latest) := by
  have hlatest : Millis.InRange Millis.latest := by decide
  obtain ⟨hlower, hupper⟩ := hanchor
  have hearliest : Millis.earliest + Millis.latest = -1 := by decide
  by_cases hneg : anchor < 0
  · have hleft : ¬ Millis.InRange (Millis.latest - anchor) := fun h => by have := h.2; omega
    simp only [read, Millis.word?_eq_none hleft, if_pos hneg]
  · have hleft : Millis.InRange (Millis.latest - anchor) := ⟨by omega, by omega⟩
    simp only [read, Millis.word?_of_inRange hlatest ⟨hlower, hupper⟩ hleft, if_neg hneg]
    by_cases hspan : (elapsed : Int) ≤ Millis.latest
    · have hpassed : Millis.InRange (elapsed : Int) := ⟨by omega, hspan⟩
      rw [if_pos hspan]
      by_cases hsum : Millis.latest < anchor + elapsed
      · have hover : ¬ Millis.InRange (anchor + elapsed) := fun h => by have := h.2; omega
        rw [Millis.word?_eq_none hover, if_pos ⟨hspan, hsum⟩]
      · have hfits : Millis.InRange (anchor + elapsed) := ⟨by omega, by omega⟩
        rw [Millis.word?_of_inRange ⟨hlower, hupper⟩ hpassed hfits, if_neg fun h => hsum h.2,
          min_eq_left (by omega)]
    · have hcut : anchor + (Millis.latest - anchor) = Millis.latest := by omega
      have hfits : Millis.InRange (anchor + (Millis.latest - anchor)) := by rwa [hcut]
      rw [if_neg hspan, Millis.word?_of_inRange ⟨hlower, hupper⟩ hleft hfits,
        if_neg fun h => hspan h.1, min_eq_right (by omega), hcut]

/-- Whatever a clock shows fits its word. -/
def Fits (clock : WallClock) : Prop := ∀ elapsed now, clock.read elapsed = .ok now → Millis.InRange now

/-- A clock shows a time after so many milliseconds. -/
def IsGood (clock : WallClock) (elapsed : Nat) : Prop := ∃ now, clock.read elapsed = .ok now

/-- When an anchored clock shows a time. -/
theorem isGood_anchored (hanchor : Millis.InRange anchor) (elapsed : Nat) :
    (anchored anchor).IsGood elapsed ↔
      0 ≤ anchor ∧ ((elapsed : Int) ≤ Millis.latest → anchor + elapsed ≤ Millis.latest) := by
  unfold IsGood
  rw [read_anchored hanchor]
  split
  · simp only [reduceCtorEq, exists_false, false_iff]
    omega
  · split
    · simp only [reduceCtorEq, exists_false, false_iff]
      omega
    · simp only [Except.ok.injEq, exists_eq', true_iff]
      omega

/-- The time that an anchored clock shows, where it shows one. -/
theorem eq_of_read_anchored (hanchor : Millis.InRange anchor)
    (h : (anchored anchor).read elapsed = .ok now) :
    now = min (anchor + elapsed) Millis.latest ∧ 0 ≤ anchor := by
  rw [read_anchored hanchor] at h
  split at h
  · cases h
  · split at h
    · cases h
    · obtain rfl := Except.ok.inj h
      exact ⟨rfl, by omega⟩

theorem fits_anchored (hanchor : Millis.InRange anchor) : (anchored anchor).Fits := by
  intro elapsed now h
  obtain ⟨rfl, hpositive⟩ := eq_of_read_anchored hanchor h
  have hlatest : Millis.InRange Millis.latest := by decide
  simp only [Millis.InRange, Millis.earliest] at hlatest ⊢
  omega

/-- An anchored clock never runs backwards. -/
theorem read_anchored_mono (hanchor : Millis.InRange anchor) {elapsed' : Nat} {now' : Int}
    (hle : elapsed ≤ elapsed') (h : (anchored anchor).read elapsed = .ok now)
    (h' : (anchored anchor).read elapsed' = .ok now') : now ≤ now' := by
  obtain ⟨rfl, -⟩ := eq_of_read_anchored hanchor h
  obtain ⟨rfl, -⟩ := eq_of_read_anchored hanchor h'
  omega

end WallClock

/-- What a clock that was started so many microseconds before the replay has run for by a moment, in
milliseconds. -/
def Moment.clockTime (moment : Moment) (lead : Nat) : Nat := (lead + moment.elapsed) / 1000

/-- A moment goes by what a clock shows, if that shows a time. -/
def WallClock.Shows (clock : WallClock) (lead : Nat) (moment : Moment) : Prop :=
  ∀ now, clock.read (moment.clockTime lead) = .ok now → moment.now = now

/-- A source whose events have times that fit their words, however far it is read. -/
def EventSource.Timed {σ : Type} [EventSource σ] (source : σ) : Prop :=
  ∀ n event, (next ((fun s : σ => (next s).source)^[n] source)).answer = .ok (some event) →
    Millis.InRange event.timestamp

theorem EventSource.Timed.head {σ : Type} [EventSource σ] {source : σ} (h : Timed source)
    {event : Event} (hnext : (next source).answer = .ok (some event)) :
    Millis.InRange event.timestamp := h 0 event hnext

theorem EventSource.Timed.rest {σ : Type} [EventSource σ] {source : σ} (h : Timed source) :
    Timed (next source).source := fun n event hnext => h (n + 1) event hnext

theorem EventQueue.timed {events : List Event} (h : ∀ e ∈ events, Millis.InRange e.timestamp) :
    EventSource.Timed (EventQueue.mk events) := by
  intro n
  induction n generalizing events with
  | zero =>
      intro event hnext
      cases events with
      | nil => cases hnext
      | cons e events =>
          obtain rfl : e = event := by simpa [EventSource.next, EventQueue.next] using hnext
          exact h e (.head _)
  | succ n ih =>
      cases events with
      | nil => exact ih h
      | cons e events => exact ih fun e' he' => h e' (.tail _ he')

namespace Replay

variable {σ : Type} [EventSource σ]

/-! ## Steps on words -/

/-- The outbound time of an event that is sent at a time, worked out on words. -/
def outbound? (r : Replay σ) (event : Event) (now : Int) : Option Int :=
  r.plan.adaptTime.outbound? r.start r.pace.origin event.timestamp now

/-- The producer takes a step at a moment, on words. At the stages that are left out it works nothing
out. -/
def step? (r : Replay σ) (moment : Moment) : Option (Replay σ × List Effect) :=
  match r.stage with
  | .pacing event => do
    let decision ← r.pace.decide? moment.elapsed event.timestamp
    let r := { r with lag := r.pace.lag decision.gap }
    match decision with
    | .sleep wait _ => return ({ r with stage := .asleep event }, [.sleep wait])
    | .dispatch _ => return (r.askGate 1 (.reserving event), [])
  | .holding event => do
    let outbound ← r.outbound? event moment.now
    let handle := r.nextHandle
    return ({ r.openHandles 1 with stage := .tracking event handle outbound },
      [.dispatch handle ⟨r.plan.stream, .ofKey event.key, encodeEvent outbound event⟩])
  | .observing next => do
    let horizon ← next.mapM fun event => r.outbound? event moment.now
    let (marker, tracker) ← r.tracker.maybeEmit? moment.now horizon
    let (r, effects) := { r with tracker }.broadcastMarker marker
    return ({ r with stage := .reporting next moment.now horizon }, effects)
  | .reporting next now horizon => do
    let r := r.onMetrics fun m => (m.setOutstanding r.gate.outstanding).setLag r.lag
    let (watermark, tracker) ← r.tracker.settle? horizon
    let (line, statistics) ← r.statistics.maybeReport? now watermark r.lag
    let r := { r with tracker, statistics }
    let lines := (line.map fun text => Effect.notice (.progress text)).toList
    match next with
    | some event => return ({ r with stage := .pacing event }, lines)
    | none => return (r.askGate r.gate.capacity .draining, lines ++ [.notice (.state .draining)])
  | .closing => do
    let (marker, tracker) ← r.tracker.emitNow? moment.now none
    let (r, effects) := { r with tracker }.broadcastMarker marker
    return ({ r with stage := .flushing }, effects ++ [.flush])
  | _ => some (r.step moment)

/-- Where the producer does not read the wall clock, its step does not go by it. -/
theorem step_of_not_readsClock {r : Replay σ} (h : r.stage.readsClock = false) (elapsed : Nat)
    (now now' : Int) : r.step ⟨elapsed, now⟩ = r.step ⟨elapsed, now'⟩ := by
  cases hstage : r.stage with
  | holding event => simp [hstage, Stage.readsClock] at h
  | observing next => simp [hstage, Stage.readsClock] at h
  | closing => simp [hstage, Stage.readsClock] at h
  | hooking event handle hooks => cases hooks <;> simp only [step, hstage]
  | _ => simp only [step, hstage]

/-! ## All times fit -/

variable {r r' : Replay σ} {ds : List Dispatch}

/-- The times that a replay holds fit their words, and so do those that its source will bring. -/
structure Fits (r : Replay σ) (ds : List Dispatch) : Prop where
  start : Millis.InRange r.start
  origin : Millis.InRange r.pace.origin
  source : EventSource.Timed r.source
  coming : ∀ e ∈ r.stage.coming, Millis.InRange e.timestamp
  sent : ∀ d ∈ ds ++ r.stage.untracked, Millis.InRange d.outbound
  lastEmit : Millis.InRange r.tracker.lastEmit
  current : ∀ w ∈ r.tracker.current, Millis.InRange w
  statistics : r.statistics.Fits
  reporting : ∀ next now horizon, r.stage = .reporting next now horizon →
    Millis.InRange now ∧ ∀ t ∈ horizon, Millis.InRange t

/-- The tracker holds only times of events that have been sent. -/
theorem Fits.tracker (h : Fits r ds) (hb : Balanced r ds) : r.tracker.Fits := by
  obtain ⟨permits, -, hbooks⟩ := hb.books
  have hsent : ∀ d ∈ ds, Millis.InRange d.outbound := fun d hd =>
    h.sent d (List.mem_append_left _ hd)
  refine ⟨?_, hbooks.holds.wellCounted, ?_, h.current, h.lastEmit⟩
  · intro t ht
    obtain ⟨d, hd, rfl⟩ := List.mem_map.mp (hbooks.holds.perm.mem_iff.mp ht)
    exact hsent d (List.mem_of_mem_filter hd)
  · intro t ht
    obtain ⟨d, hd, -, rfl⟩ := hbooks.completed_mem t ht
    exact hsent d hd

theorem Fits.outbound (h : Fits r ds) {event : Event} {now : Int}
    (hevent : Millis.InRange event.timestamp) (hnow : Millis.InRange now) :
    r.outbound? event now = some (r.outbound event now) ∧
      Millis.InRange (r.outbound event now) :=
  ⟨AdaptTime.outbound?_eq _ h.start h.origin hevent, AdaptTime.inRange_outbound _ _ _ hevent hnow⟩

theorem Fits.horizon (h : Fits r ds) {next : Option Event} {now : Int}
    (hnext : ∀ e ∈ next.toList, Millis.InRange e.timestamp) (hnow : Millis.InRange now) :
    next.mapM (fun event => r.outbound? event now) =
        some (next.map fun event => r.outbound event now) ∧
      ∀ t ∈ next.map fun event => r.outbound event now, Millis.InRange t := by
  cases next with
  | none => exact ⟨rfl, fun t ht => by cases ht⟩
  | some event =>
      obtain ⟨hdefined, hfits⟩ := h.outbound (hnext event (.head _)) hnow
      refine ⟨?_, ?_⟩
      · exact congrArg (Option.map some) hdefined
      · rintro t ht
        obtain rfl := Option.some.inj ht
        exact hfits

/-- A step on words is the step itself. -/
theorem Fits.step? (h : Fits r ds) (hb : Balanced r ds) (moment : Moment)
    (hnow : r.stage.readsClock = true → Millis.InRange moment.now) :
    r.step? moment = some (r.step moment) := by
  have htracker := h.tracker hb
  have hcoming := h.coming
  unfold Replay.step?
  split
  case h_1 event hstage =>
    rw [hstage] at hcoming
    rw [Pace.decide?_eq r.pace moment.elapsed h.origin (hcoming event (.head _))]
    simp only [Replay.step, hstage]
    dsimp only [Option.bind_eq_bind, Option.bind_some]
    cases r.pace.decide moment.elapsed event.timestamp <;> rfl
  case h_2 event hstage =>
    rw [hstage] at hcoming hnow
    rw [(h.outbound (hcoming event (.head _)) (hnow rfl)).1]
    simp only [Replay.step, hstage]
    rfl
  case h_3 next hstage =>
    rw [hstage] at hcoming hnow
    obtain ⟨hdefined, hfits⟩ := h.horizon hcoming (hnow rfl)
    rw [hdefined, step_observing hstage]
    dsimp only [Option.bind_eq_bind, Option.bind_some]
    rw [Tracker.maybeEmit?_eq htracker (hnow rfl) hfits]
    rfl
  case h_4 next now horizon hstage =>
    obtain ⟨hreported, hhorizon⟩ := h.reporting next now horizon hstage
    have hreport := Statistics.maybeReport?_eq h.statistics hreported
      (htracker.settle : ∀ w ∈ (r.tracker.settle horizon).1, Millis.InRange w) r.lag
    simp only [Replay.step, hstage]
    dsimp only [onMetrics, Option.bind_eq_bind]
    rw [Tracker.settle?_eq htracker hhorizon]
    dsimp only [Option.bind_some]
    rw [hreport]
    cases next <;> rfl
  case h_5 hstage =>
    rw [Tracker.emitNow?_eq htracker (fun t ht => by cases ht), step_closing hstage]
    rfl
  case h_6 => rfl

/-! ## Every step -/

omit [EventSource σ] in
theorem Turn.statistics (ht : Turn r r') : r'.statistics = r.statistics := by
  cases ht with
  | quiet completions tellings stage heq => rw [heq]
  | ran tellings stage handle outcome hook hooks heq => rw [heq, runHook_eq]

theorem Balanced.statistics_step (hb : Balanced r ds) (h : r.statistics.Fits) (moment : Moment) :
    (r.step moment).1.statistics.Fits := by
  rcases hstage : r.stage with event | event | ⟨event, ticket⟩ | event | ⟨event, handle, outbound⟩ |
    ⟨event, handle, _ | ⟨hook, hooks⟩⟩ | event | _ | next | ⟨next, now, horizon⟩ | ticket | _ | _ |
    result
  case observing =>
    rw [step_observing hstage]
    dsimp only
    rw [(broadcastMarker_spec (hb.coherent.setTracker _) _).1.eq]
    exact h
  case closing =>
    rw [step_closing hstage]
    dsimp only
    rw [(broadcastMarker_spec (hb.coherent.setTracker _) _).1.eq]
    exact h
  case hooking.cons =>
    have hturn := turn_register hb.coherent hstage (hb.hooking _ _ _ hstage)
    simp only [Replay.step, hstage]
    rw [hturn.statistics]
    exact h
  all_goals simp only [Replay.step, hstage]
  case pacing =>
    split <;> exact h
  case reserving =>
    split
    · exact h
    · split <;> exact h
  case counting => exact ⟨h.start, h.frequency, h.positive⟩
  case reporting =>
    cases next <;> exact h.maybeReport ..
  case draining =>
    split
    · exact h
    · split <;> exact h
  all_goals exact h

theorem Balanced.statistics_act (hb : Balanced r ds) (h : r.statistics.Fits) (action : ReplayAction) :
    (r.act action).1.statistics.Fits := by
  cases action with
  | produce moment => exact hb.statistics_step h moment
  | wake =>
      show r.wake.statistics.Fits
      unfold Replay.wake
      split <;> exact h
  | tell handle outcome =>
      rw [show (r.act (.tell handle outcome)).1.statistics = r.statistics from
        (turn_tell hb.coherent outcome).statistics]
      exact h
  | continueTelling handle =>
      rw [show (r.act (.continueTelling handle)).1.statistics = r.statistics from
        (turn_continueTelling hb.coherent).statistics]
      exact h
  | flushed moment result =>
      show (r.flushed moment result).1.statistics.Fits
      unfold Replay.flushed
      split
      · split <;> exact h
      · exact h

/-- The moment by which an action goes, if it reads the wall clock. -/
def reads (r : Replay σ) : ReplayAction → Option Moment
  | .produce moment => if r.stage.readsClock then some moment else none
  | _ => none

/-- The events that the producer holds come from the source, and their times fit. -/
theorem Fits.supply (h : Fits r ds) (hb : Balanced r ds) (action : ReplayAction) :
    EventSource.Timed (r.act action).1.source ∧
      ∀ e ∈ (r.act action).1.stage.coming, Millis.InRange e.timestamp := by
  cases hb.course action with
  | quiet _ _ hsource hcoming =>
      rw [hsource, hcoming]
      exact ⟨h.source, h.coming⟩
  | hand _ _ _ _ _ _ hsource hstage' =>
      rw [hsource, hstage']
      exact ⟨h.source, List.forall_mem_nil _⟩
  | pull _ _ hstage hsource hstage' =>
      rw [hsource]
      refine ⟨h.source.rest, ?_⟩
      rcases hstage' with ⟨next, hanswer, hnext⟩ | ⟨fault, -, hended⟩
      · rw [hnext]
        intro e he
        obtain rfl := Option.mem_toList.mp he
        exact h.source.head hanswer
      · rw [hended]
        exact List.forall_mem_nil _
  | settle _ _ _ _ hstage _ _ hsource hcoming =>
      rw [hsource, hcoming, ← (settling_stage hstage).1]
      exact ⟨h.source, h.coming⟩

/-- An event is sent with an outbound time that fits. -/
theorem Fits.hands (h : Fits r ds) {action : ReplayAction}
    (hnow : ∀ moment ∈ r.reads action, Millis.InRange moment.now) :
    ∀ d ∈ r.hands action, Millis.InRange d.outbound := by
  intro d hd
  have hcoming := h.coming
  cases action with
  | produce moment =>
      cases hstage : r.stage with
      | holding event =>
          have hread := hnow moment (if_pos (by rw [hstage]; rfl))
          simp only [Replay.hands, hstage] at hd
          obtain rfl := Option.some.inj hd
          rw [hstage] at hcoming
          exact (h.outbound (hcoming event (.head _)) hread).2
      | _ => simp [Replay.hands, hstage] at hd
  | _ => cases hd

theorem Fits.lastEmit_act (h : Fits r ds) (hb : Balanced r ds) {action : ReplayAction}
    (hnow : ∀ moment ∈ r.reads action, Millis.InRange moment.now) :
    Millis.InRange (r.act action).1.tracker.lastEmit := by
  cases hb.pulse action with
  | rest _ _ hlast =>
      rw [hlast]
      exact h.lastEmit
  | hand _ _ _ htracker =>
      rw [htracker]
      exact h.lastEmit
  | pass _ _ hlast =>
      rw [hlast]
      exact h.lastEmit
  | trigger moment hproduce _ htriggers _ _ _ hlast =>
      rw [hlast]
      refine hnow moment ?_
      rw [hproduce]
      refine if_pos ?_
      unfold triggers at htriggers
      split at htriggers
      · rename_i hstage
        rw [hstage]
        rfl
      · cases htriggers

theorem Fits.current_act (h : Fits r ds) (hb : Balanced r ds) (action : ReplayAction) :
    ∀ w ∈ (r.act action).1.tracker.current, Millis.InRange w := by
  cases hb.course action with
  | quiet _ _ _ _ _ hcurrent =>
      rw [hcurrent]
      exact h.current
  | hand _ _ _ _ _ _ _ _ htracker =>
      rw [htracker]
      exact h.current
  | pull _ _ _ _ _ htracker =>
      rw [htracker]
      exact h.current
  | settle _ _ horizon _ _ _ hsettles _ _ _ hcurrent =>
      rw [hcurrent]
      intro w hw
      rcases hsettles with hnone | hsettled
      · rw [hnone] at hw
        exact h.current w hw
      · cases hsettle : r.settles action with
        | none =>
            rw [hsettle] at hw
            exact h.current w hw
        | some v =>
            rw [hsettle] at hw hsettled
            obtain rfl : v = w := by simpa using hw
            exact (h.tracker hb).settle v hsettled.symm

/-- A progress line is thought of only behind a look for a marker, at the reading of that. -/
theorem Transition.reporting {action : ReplayAction} {effects : List Effect}
    (ht : Transition r action r' effects) {next : Option Event} {now : Int} {horizon : Option Int}
    (hstage' : r'.stage = .reporting next now horizon) :
    r.stage = .reporting next now horizon ∨
    ∃ moment, action = .produce moment ∧ r.stage = .observing next ∧ now = moment.now ∧
      horizon = next.map fun event => r.outbound event moment.now := by
  cases ht with
  | rest hsilent heq => exact .inl (heq ▸ hstage')
  | turn hsilent hturn =>
      obtain ⟨-, -, hreporting⟩ := hturn.registers.course
      exact .inl ((hreporting _ _ _ hstage').symm.trans hstage')
  | move gate tally lag statistics metrics nextTicket stage hsilent hgoes heq =>
      rw [heq] at hstage'
      exact absurd hstage' (hgoes.ne_reporting next now horizon)
  | observe moment next' tracker marked hproduce hstage hemission hmarked heq =>
      rw [heq] at hstage'
      obtain ⟨rfl, rfl, rfl⟩ : next' = next ∧ moment.now = now ∧ _ = horizon := by
        simpa using hstage'
      exact .inr ⟨moment, hproduce, hstage, rfl, rfl⟩
  | pull stage' hsilent hstage hanswer heq =>
      rw [heq] at hstage'
      rcases hanswer with ⟨next', -, rfl⟩ | ⟨fault, -, rfl⟩ <;> cases hstage'
  | report moment next' now' horizon' gate statistics metrics nextTicket stage' line notices hproduce
      hstage hgoes heq =>
      rw [heq] at hstage'
      rcases hgoes with ⟨event, -, rfl⟩ | ⟨-, ticket, rfl⟩ <;> cases hstage'
  -- the other steps lead elsewhere
  | _ =>
      subst r'
      cases hstage'

theorem Fits.reporting_act (h : Fits r ds) (hb : Balanced r ds) {action : ReplayAction}
    (hnow : ∀ moment ∈ r.reads action, Millis.InRange moment.now) :
    ∀ next now horizon, (r.act action).1.stage = .reporting next now horizon →
      Millis.InRange now ∧ ∀ t ∈ horizon, Millis.InRange t := by
  intro next now horizon hstage'
  rcases (hb.transition action).reporting hstage' with hstage | ⟨moment, hproduce, hstage, rfl, rfl⟩
  · exact h.reporting next now horizon hstage
  · have hread : Millis.InRange moment.now := by
      refine hnow moment ?_
      rw [hproduce]
      exact if_pos (by rw [hstage]; rfl)
    have hcoming := h.coming
    rw [hstage] at hcoming
    exact ⟨hread, (h.horizon hcoming hread).2⟩

theorem Fits.act (h : Fits r ds) (hb : Balanced r ds) (action : ReplayAction)
    (hnow : ∀ moment ∈ r.reads action, Millis.InRange moment.now) :
    Fits (r.act action).1 (ds ++ r.tracks action) := by
  have hfixed := hb.fixed action
  obtain ⟨hsource, hcoming⟩ := h.supply hb action
  refine ⟨?_, ?_, hsource, hcoming, ?_, h.lastEmit_act hb hnow, h.current_act hb action,
    hb.statistics_act h.statistics action, h.reporting_act hb hnow⟩
  · rw [hfixed.start]
    exact h.start
  · rw [hfixed.pace]
    exact h.origin
  · intro d hd
    rw [List.append_assoc, ← hb.untracked_act action, ← List.append_assoc] at hd
    rcases List.mem_append.mp hd with hd | hd
    · exact h.sent d hd
    · exact h.hands hnow d (Option.mem_toList.mp hd)

/-! ## Whole runs -/

/-- Takes one step of a schedule on words. Where the producer reads the wall clock, it goes by what that
shows. -/
def act? (r : Replay σ) (clock : WallClock) (lead : Nat) :
    ReplayAction → Option (Replay σ × List Effect)
  | .produce moment =>
    if r.stage.readsClock then do
      let now ← (clock.read (moment.clockTime lead)).toOption
      r.step? { moment with now }
    else r.step? moment
  | action => some (r.act action)

/-- Takes the steps of a schedule on words. -/
def follow? (r : Replay σ) (clock : WallClock) (lead : Nat) :
    List ReplayAction → Option (Replay σ × List Effect)
  | [] => some (r, [])
  | action :: actions => do
    let (r, effects) ← r.act? clock lead action
    let (r, more) ← r.follow? clock lead actions
    return (r, effects ++ more)

/-- Starts a replay of a source, and takes the steps of a schedule, on words. -/
def run? (plan : ReplayPlan) (metrics : Option ReplayMetrics) (shards : Nat) (clock : WallClock)
    (lead : Nat) (start : Moment) (source : σ) (actions : List ReplayAction) :
    Option (Replay σ × List Effect) := do
  let now ← (clock.read (start.clockTime lead)).toOption
  let opened := ofSource plan metrics shards { start with now } source
  let run ← opened.1.follow? clock lead actions
  return (run.1, opened.2 ++ run.2)

/-- How long the wall clock has run for where a schedule reads it, in milliseconds. -/
def readTimes (r : Replay σ) (lead : Nat) : List ReplayAction → List Nat
  | [] => []
  | action :: actions =>
    ((r.reads action).map fun moment => moment.clockTime lead).toList ++
      (r.act action).1.readTimes lead actions

variable {clock : WallClock} {lead : Nat}

theorem Fits.act? (h : Fits r ds) (hb : Balanced r ds) (hclock : clock.Fits) (action : ReplayAction)
    (hshows : ∀ moment ∈ r.reads action, clock.Shows lead moment)
    (hgood : ∀ moment ∈ r.reads action, clock.IsGood (moment.clockTime lead)) :
    r.act? clock lead action = some (r.act action) ∧
      ∀ moment ∈ r.reads action, Millis.InRange moment.now := by
  have hnow : ∀ moment ∈ r.reads action, Millis.InRange moment.now := by
    intro moment hmoment
    obtain ⟨now, hread⟩ := hgood moment hmoment
    rw [hshows moment hmoment now hread]
    exact hclock _ now hread
  refine ⟨?_, hnow⟩
  cases action with
  | produce moment =>
      by_cases hreads : r.stage.readsClock = true
      · have hmoment : moment ∈ r.reads (.produce moment) := if_pos hreads
        obtain ⟨now, hread⟩ := hgood moment hmoment
        obtain rfl := hshows moment hmoment now hread
        simp only [Replay.act?, if_pos hreads, hread]
        exact h.step? hb moment fun _ => hnow moment hmoment
      · simp only [Replay.act?, if_neg hreads]
        exact h.step? hb moment fun hreads' => absurd hreads' hreads
  | _ => rfl

theorem act?_eq_none {action : ReplayAction} {moment : Moment} (hmoment : moment ∈ r.reads action)
    (hbad : ¬ clock.IsGood (moment.clockTime lead)) : r.act? clock lead action = none := by
  cases action with
  | produce moment' =>
      by_cases hreads : r.stage.readsClock = true
      · obtain rfl : moment' = moment := by simpa [reads, hreads] using hmoment
        cases hread : clock.read (moment'.clockTime lead) with
        | error fault => simp only [act?, if_pos hreads, hread]; rfl
        | ok now => exact absurd ⟨now, hread⟩ hbad
      · simp [reads, hreads] at hmoment
  | _ => cases hmoment

omit [EventSource σ] in
theorem eq_produce_of_mem_reads {action : ReplayAction} {moment : Moment}
    (h : moment ∈ r.reads action) : action = .produce moment := by
  cases action with
  | produce moment' =>
      by_cases hreads : r.stage.readsClock = true
      · obtain rfl : moment' = moment := by simpa [reads, hreads] using h
        rfl
      · simp [reads, hreads] at h
  | _ => cases h

omit [EventSource σ] in
theorem shows_of_reads {action : ReplayAction} {actions : List ReplayAction}
    (hshows : ∀ moment, .produce moment ∈ action :: actions → clock.Shows lead moment) :
    ∀ moment ∈ r.reads action, clock.Shows lead moment := fun moment hmoment =>
  hshows moment (eq_produce_of_mem_reads hmoment ▸ .head _)

/-- A schedule on words is the schedule itself, if the clock shows a time wherever it is read. -/
theorem Fits.follow? (h : Fits r ds) (hb : Balanced r ds) (hclock : clock.Fits)
    (actions : List ReplayAction)
    (hshows : ∀ moment, .produce moment ∈ actions → clock.Shows lead moment)
    (hgood : ∀ elapsed ∈ r.readTimes lead actions, clock.IsGood elapsed) :
    r.follow? clock lead actions = some (r.follow actions) := by
  induction actions generalizing r ds with
  | nil => rfl
  | cons action actions ih =>
      obtain ⟨hact, hnow⟩ := h.act? hb hclock action (shows_of_reads hshows) fun moment hmoment =>
        hgood _ (List.mem_append_left _ (Option.mem_toList.mpr (Option.mem_map_of_mem _ hmoment)))
      have hrest := ih (h.act hb action hnow) (hb.act action)
        (fun moment hmoment => hshows moment (.tail _ hmoment))
        fun elapsed helapsed => hgood elapsed (List.mem_append_right _ helapsed)
      unfold Replay.follow?
      rw [hact]
      dsimp only [Option.bind_eq_bind, Option.bind_some]
      rw [hrest]
      rfl

/-- Otherwise it comes to nothing. -/
theorem Fits.follow?_eq_none (h : Fits r ds) (hb : Balanced r ds) (hclock : clock.Fits)
    (actions : List ReplayAction)
    (hshows : ∀ moment, .produce moment ∈ actions → clock.Shows lead moment) {elapsed : Nat}
    (hread : elapsed ∈ r.readTimes lead actions) (hbad : ¬ clock.IsGood elapsed) :
    r.follow? clock lead actions = none := by
  induction actions generalizing r ds with
  | nil => cases hread
  | cons action actions ih =>
      unfold Replay.follow?
      by_cases hgood : ∀ moment ∈ r.reads action, clock.IsGood (moment.clockTime lead)
      · obtain ⟨hact, hnow⟩ := h.act? hb hclock action (shows_of_reads hshows) hgood
        -- the bad reading is a later one
        rcases List.mem_append.mp hread with hfirst | hlater
        · obtain ⟨moment, hmoment, rfl⟩ := Option.map_eq_some_iff.mp (Option.mem_toList.mp hfirst)
          exact absurd (hgood moment hmoment) hbad
        · have hrest := ih (h.act hb action hnow) (hb.act action)
            (fun moment hmoment => hshows moment (.tail _ hmoment)) hlater
          rw [hact]
          dsimp only [Option.bind_eq_bind, Option.bind_some]
          rw [hrest]
          rfl
      · obtain ⟨moment, hnot⟩ := not_forall.mp hgood
        obtain ⟨hmoment, hfirst⟩ := Classical.not_imp.mp hnot
        rw [act?_eq_none hmoment hfirst]
        rfl

theorem fits_ofSource (plan : ReplayPlan) (metrics : Option ReplayMetrics) (shards : Nat)
    {start : Moment} {source : σ} (hstart : Millis.InRange start.now)
    (hsource : EventSource.Timed source) : Fits (ofSource plan metrics shards start source).1 [] := by
  have hstatistics := Statistics.fits_startingAt plan.statisticsFrequency hstart
  have hzero : Millis.InRange 0 := by decide
  have hnone : ∀ w ∈ (none : Option Int), Millis.InRange w := fun w hw => by cases hw
  unfold ofSource
  dsimp only
  split
  · exact ⟨hstart, hzero, hsource.rest, List.forall_mem_nil _, List.forall_mem_nil _, hstart, hnone,
      hstatistics, fun _ _ _ hstage => by cases hstage⟩
  · exact ⟨hstart, hzero, hsource.rest, List.forall_mem_nil _, List.forall_mem_nil _, hstart, hnone,
      hstatistics, fun _ _ _ hstage => by cases hstage⟩
  · rename_i event hanswer
    have hevent := hsource.head hanswer
    refine ⟨hstart, hevent, hsource.rest, ?_, List.forall_mem_nil _, hstart, hnone, hstatistics,
      fun _ _ _ hstage => by cases hstage⟩
    intro e he
    obtain rfl := List.mem_singleton.mp he
    exact hevent

section Run

variable {source : σ} {plan : ReplayPlan} {metrics : Option ReplayMetrics} {shards : Nat}
  {start : Moment} {actions : List ReplayAction} (hclock : clock.Fits)
  (hsource : EventSource.Timed source)
  (hshows : ∀ moment, moment = start ∨ .produce moment ∈ actions → clock.Shows lead moment)

include hclock hsource hshows

theorem run?_eq
    (hgood : ∀ elapsed ∈ start.clockTime lead ::
      (ofSource plan metrics shards start source).1.readTimes lead actions, clock.IsGood elapsed) :
    run? plan metrics shards clock lead start source actions =
      some (((ofSource plan metrics shards start source).1.follow actions).1,
        (ofSource plan metrics shards start source).2 ++
          ((ofSource plan metrics shards start source).1.follow actions).2) := by
  obtain ⟨now, hread⟩ := hgood _ (.head _)
  obtain rfl := hshows start (.inl rfl) now hread
  have hfollow := (fits_ofSource plan metrics shards (hclock _ _ hread) hsource).follow?
    (balanced_ofSource plan metrics shards start source) hclock actions
    (fun moment hmoment => hshows moment (.inr hmoment))
    fun elapsed helapsed => hgood elapsed (.tail _ helapsed)
  simp only [run?, hread, Except.toOption, Option.bind_eq_bind, Option.bind_some]
  rw [hfollow]
  rfl

theorem run?_eq_none {elapsed : Nat}
    (hread : elapsed ∈ start.clockTime lead ::
      (ofSource plan metrics shards start source).1.readTimes lead actions)
    (hbad : ¬ clock.IsGood elapsed) :
    run? plan metrics shards clock lead start source actions = none := by
  cases hstart : clock.read (start.clockTime lead) with
  | error fault =>
      simp only [run?, hstart, Except.toOption]
      rfl
  | ok now =>
      obtain rfl := hshows start (.inl rfl) now hstart
      have hlater : elapsed ∈ (ofSource plan metrics shards start source).1.readTimes lead actions := by
        refine (List.mem_cons.mp hread).resolve_left ?_
        rintro rfl
        exact hbad ⟨_, hstart⟩
      have hfollow := (fits_ofSource plan metrics shards (hclock _ _ hstart) hsource).follow?_eq_none
        (balanced_ofSource plan metrics shards start source) hclock actions
        (fun moment hmoment => hshows moment (.inr hmoment)) hlater hbad
      simp only [run?, hstart, Except.toOption, Option.bind_eq_bind, Option.bind_some]
      rw [hfollow]
      rfl

end Run

/-- Whatever the anchor of the wall clock, the plan, the times of the source and the course of the
replay, as long as all of them fit their words: worked out on words, the replay is the replay itself or
comes to nothing. It comes to nothing just if the clock is anchored before 1970 or if, where it is read,
the sum that it shows leaves its word, while the span does not. The times that the clock shows never go
back. -/
theorem defined_iff_clock_shows {anchor : Int} (hanchor : Millis.InRange anchor) {source : σ}
    (hsource : EventSource.Timed source) (plan : ReplayPlan) (metrics : Option ReplayMetrics)
    (shards lead : Nat) (start : Moment) (actions : List ReplayAction)
    (hshows : ∀ moment, moment = start ∨ .produce moment ∈ actions →
      (WallClock.anchored anchor).Shows lead moment) :
    let clock := WallClock.anchored anchor
    let opened := ofSource plan metrics shards start source
    let onWords := run? plan metrics shards clock lead start source actions
    (∀ run, onWords = some run →
      run = ((opened.1.follow actions).1, opened.2 ++ (opened.1.follow actions).2)) ∧
    (onWords.isSome ↔ 0 ≤ anchor ∧
      ∀ elapsed ∈ start.clockTime lead :: opened.1.readTimes lead actions,
        (elapsed : Int) ≤ Millis.latest → anchor + elapsed ≤ Millis.latest) ∧
    ∀ elapsed elapsed' now now', elapsed ≤ elapsed' → clock.read elapsed = .ok now →
      clock.read elapsed' = .ok now' → now ≤ now' := by
  intro clock opened onWords
  have hclock := WallClock.fits_anchored hanchor
  have hiff := WallClock.isGood_anchored hanchor
  have hmono : ∀ elapsed elapsed' now now', elapsed ≤ elapsed' → clock.read elapsed = .ok now →
      clock.read elapsed' = .ok now' → now ≤ now' := fun _ _ _ _ hle h h' =>
    WallClock.read_anchored_mono hanchor hle h h'
  by_cases hgood : ∀ elapsed ∈ start.clockTime lead :: opened.1.readTimes lead actions,
      clock.IsGood elapsed
  · have hrun : onWords = _ := run?_eq hclock hsource hshows hgood
    refine ⟨fun run h => Option.some.inj (h.symm.trans hrun), ⟨fun _ => ?_, fun _ => ?_⟩, hmono⟩
    · exact ⟨((hiff _).mp (hgood _ (.head _))).1, fun elapsed helapsed =>
        ((hiff elapsed).mp (hgood elapsed helapsed)).2⟩
    · rw [hrun]
      rfl
  · obtain ⟨elapsed, hnot⟩ := not_forall.mp hgood
    obtain ⟨helapsed, hbad⟩ := Classical.not_imp.mp hnot
    have hnone : onWords = none := run?_eq_none hclock hsource hshows helapsed hbad
    refine ⟨fun run h => ?_, ⟨fun h => ?_, fun h => ?_⟩, hmono⟩
    · rw [hnone] at h
      cases h
    · rw [hnone] at h
      cases h
    · exact absurd ((hiff elapsed).mpr ⟨h.1, h.2 elapsed helapsed⟩) hbad

/-- Two events under a clock that is anchored a tenth of a second after the epoch and read a second after
the start. -/
theorem defined_iff_clock_shows_two_events :
    Millis.InRange 100 ∧ EventSource.Timed (EventQueue.mk [⟨10, "a", []⟩, ⟨20, "b", []⟩]) ∧
    (∀ moment, moment = ⟨0, 100⟩ ∨
      .produce moment ∈ List.replicate 24 (ReplayAction.produce ⟨1000000, 1100⟩) →
      (WallClock.anchored 100).Shows 0 moment) ∧
    (run? {} none 2 (.anchored 100) 0 ⟨0, 100⟩ (EventQueue.mk [⟨10, "a", []⟩, ⟨20, "b", []⟩])
      (List.replicate 24 (.produce ⟨1000000, 1100⟩))).isSome = true := by
  have hanchor : Millis.InRange 100 := by decide
  have hsource : EventSource.Timed (EventQueue.mk [⟨10, "a", []⟩, ⟨20, "b", []⟩]) :=
    EventQueue.timed (by decide)
  have hshows : ∀ moment, moment = ⟨0, 100⟩ ∨
      .produce moment ∈ List.replicate 24 (ReplayAction.produce ⟨1000000, 1100⟩) →
      (WallClock.anchored 100).Shows 0 moment := by
    rintro moment (rfl | hmoment) now hread
    · exact Except.ok.inj hread
    · obtain rfl := ReplayAction.produce.inj (List.eq_of_mem_replicate hmoment)
      exact Except.ok.inj hread
  refine ⟨hanchor, hsource, hshows, ?_⟩
  exact (defined_iff_clock_shows hanchor hsource {} none 2 0 ⟨0, 100⟩ _ hshows).2.1.mpr
    ⟨by decide, by decide +kernel⟩

/-- A clock that is anchored at the latest time shows it, and no other: the replay of an event breaks off
when the event has been delivered, five milliseconds after the start. A clock that is anchored before
the epoch shows no time at all. -/
theorem anchored_clock_overflows :
    (WallClock.anchored Millis.latest).read 0 = .ok Millis.latest ∧
    ((Rehearsal.ofSource {} none (.anchored Millis.latest) (EventQueue.mk [⟨100, "a", [49]⟩])
      (MemorySink.ofShards 1 5 none)).runFor 40).broken = some .sum ∧
    ((Rehearsal.ofSource {} none (.anchored (-1)) (EventQueue.mk [⟨100, "a", [49]⟩])
      (MemorySink.ofShards 1 5 none)).runFor 40).broken = some .difference := by
  refine ⟨by decide, by decide +kernel, by decide +kernel⟩

end Replay

end EventReplay
