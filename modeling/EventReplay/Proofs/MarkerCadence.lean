import Mathlib.Data.List.DropRight
import EventReplay.Proofs.StreamRecords

/-!
# How often markers go out

Markers are due by time and by the number of events, and both count from the last time that one was due
and a watermark was there. A dispatch that is tracked is always good for a watermark
(`Tracker.IsKnown`), so the events never run up beyond their threshold. Every time that a marker is due
uses up an interval of time or a threshold of events, which bounds the number of markers
(`Replay.Cadenced`). `Replay.markers_in_cadence` says both of every replay.
-/

set_option autoImplicit false

namespace EventReplay

/-! ## The tracker -/

namespace Tracker

variable {tracker : Tracker} {now : Int} {horizon : Option Int}

/-- There is a time to make a watermark of: that of a dispatch under way, or of one with an outcome. -/
def IsKnown (tracker : Tracker) : Prop := tracker.outstanding ≠ [] ∨ tracker.lastCompleted ≠ none

theorem isKnown_track (tracker : Tracker) (t : Int) : (tracker.track t).IsKnown := by
  refine .inl ?_
  show countIn t tracker.outstanding ≠ []
  intro hnone
  have hmem : t ∈ timesOf (countIn t tracker.outstanding) :=
    (timesOf_countIn t tracker.outstanding).mem_iff.mpr (List.mem_cons_self ..)
  rw [hnone] at hmem
  cases hmem

theorem isKnown_complete (tracker : Tracker) (t : Int) : (tracker.complete t).IsKnown := by
  refine .inr ?_
  unfold complete
  split <;> simp

theorem IsKnown.sameTimes {tracker' : Tracker} (h : tracker.IsKnown)
    (hsame : SameTimes tracker tracker') : tracker'.IsKnown := by
  rcases h with hsome | hsome
  · exact .inl (by rwa [hsame.outstanding])
  · exact .inr (by rwa [hsame.lastCompleted])

/-- What is known is good for a watermark. -/
theorem IsKnown.settle (h : tracker.IsKnown) (horizon : Option Int) :
    (tracker.settle horizon).1 ≠ none := by
  intro hnone
  have hcandidate := (settle_none hnone).2
  unfold candidate at hcandidate
  split at hcandidate
  · cases hcandidate
  · rename_i hempty
    rcases h with hsome | hsome
    · exact hsome hempty
    · exact hsome (Option.map_eq_none_iff.mp hcandidate)

/-- Both triggers start anew when a marker is due and a watermark is there, and only then. -/
theorem maybeEmit_trigger (tracker : Tracker) (now : Int) (horizon : Option Int) :
    let fired := (if tracker.isDue now then (tracker.settle horizon).1 else none).isSome
    (tracker.maybeEmit now horizon).2.lastEmit = (if fired then now else tracker.lastEmit) ∧
    (tracker.maybeEmit now horizon).2.eventsSinceEmit =
      if fired then 0 else tracker.eventsSinceEmit := by
  intro fired
  by_cases hdue : tracker.isDue now = true
  · cases hw : (tracker.settle horizon).1 with
    | none =>
        have hemit : tracker.maybeEmit now horizon = (none, (tracker.settle horizon).2) := by
          simp only [maybeEmit, settle, hdue, if_true] at hw ⊢
          rw [hw]
        have hfired : fired = false := by simp [fired, hdue, hw]
        rw [hemit, hfired]
        exact ⟨rfl, rfl⟩
    | some value =>
        have hemit : tracker.maybeEmit now horizon = Tracker.mark
            { tracker with current := some value, lastEmit := now, eventsSinceEmit := 0 } now
            value := by
          simp only [maybeEmit, settle, hdue, if_true] at hw ⊢
          rw [hw]
        have hfired : fired = true := by simp [fired, hdue, hw]
        rw [hemit, hfired, mark]
        split <;> exact ⟨rfl, rfl⟩
  · have hemit : tracker.maybeEmit now horizon = (none, tracker) := by
      simp [maybeEmit, hdue]
    have hfired : fired = false := by simp [fired, hdue]
    rw [hemit, hfired]
    exact ⟨rfl, rfl⟩

/-- The last marker starts neither trigger anew. -/
theorem emitNow_trigger (tracker : Tracker) (now : Int) (horizon : Option Int) :
    (tracker.emitNow now horizon).2.lastEmit = tracker.lastEmit ∧
      (tracker.emitNow now horizon).2.eventsSinceEmit = tracker.eventsSinceEmit := by
  unfold emitNow settle mark
  split
  · rename_i hsettle
    obtain ⟨-, rfl⟩ := Prod.mk.inj hsettle
    exact ⟨rfl, rfl⟩
  · rename_i hsettle
    obtain ⟨-, rfl⟩ := Prod.mk.inj hsettle
    split <;> exact ⟨rfl, rfl⟩

/-- The events that are counted since a marker was due are good for a watermark. -/
def IsReady (tracker : Tracker) : Prop := 0 < tracker.eventsSinceEmit → tracker.IsKnown

theorem IsReady.sameTimes {tracker' : Tracker} (h : tracker.IsReady)
    (hsame : SameTimes tracker tracker')
    (hevents : tracker'.eventsSinceEmit ≤ tracker.eventsSinceEmit) : tracker'.IsReady := by
  intro hpos
  have hknown : tracker.IsKnown := h (by omega)
  exact hknown.sameTimes hsame

/-- With so many events that a marker is due for their number, it does not want for a watermark. -/
theorem IsReady.settle (h : tracker.IsReady) (hthreshold : 1 ≤ tracker.config.eventThreshold)
    (hmany : tracker.config.eventThreshold ≤ tracker.eventsSinceEmit) (now : Int)
    (horizon : Option Int) :
    (if tracker.isDue now then (tracker.settle horizon).1 else none).isSome = true := by
  have hdue : tracker.isDue now = true := by simp [isDue, hmany]
  have hsome := (h (by omega)).settle horizon
  rw [if_pos hdue]
  exact Option.isSome_iff_ne_none.mpr hsome

/-- A marker is due for the time that has passed, or for the number of events. -/
theorem due_cases (hdue : tracker.isDue now = true)
    (hinterval : (tracker.config.interval : Int) ≤ Millis.latest) :
    tracker.lastEmit + tracker.config.interval ≤ now ∨
      tracker.config.eventThreshold ≤ tracker.eventsSinceEmit := by
  unfold isDue at hdue
  rcases Bool.or_eq_true_iff.mp hdue with htime | hmany
  · left
    have htime := of_decide_eq_true htime
    simp only [Millis.sub, Millis.clamp, Millis.earliest, Millis.latest] at htime hinterval
    omega
  · exact .inr (of_decide_eq_true hmany)

end Tracker

theorem Hook.trigger_onTracker (hook : Hook) (tracker : Tracker) :
    (hook.onTracker tracker).lastEmit = tracker.lastEmit ∧
      (hook.onTracker tracker).eventsSinceEmit = tracker.eventsSinceEmit ∧
      (tracker.IsKnown → (hook.onTracker tracker).IsKnown) := by
  cases hook with
  | settle outbound =>
      refine ⟨?_, ?_, fun _ => tracker.isKnown_complete outbound⟩
      · simp only [Hook.onTracker, Tracker.complete]
        split <;> rfl
      · simp only [Hook.onTracker, Tracker.complete]
        split <;> rfl
  | _ => exact ⟨rfl, rfl, id⟩

/-! ## The beats of a replay -/

/-- What counts for the cadence of markers. -/
inductive Beat where
  /-- An event is handed over. -/
  | dispatched
  /-- A marker is due and a watermark is there. -/
  | triggered
deriving DecidableEq, Repr

/-- The events handed over since a marker was due last. -/
def Beat.sinceTrigger (beats : List Beat) : Nat := (beats.rtakeWhile (· == .dispatched)).length

theorem Beat.sinceTrigger_dispatched (beats : List Beat) :
    sinceTrigger (beats ++ [.dispatched]) = sinceTrigger beats + 1 := by
  rw [sinceTrigger, List.rtakeWhile_concat_pos _ _ _ rfl, List.length_append]
  rfl

theorem Beat.sinceTrigger_triggered (beats : List Beat) :
    sinceTrigger (beats ++ [.triggered]) = 0 := by
  rw [sinceTrigger, List.rtakeWhile_concat_neg _ _ _ (by decide)]
  rfl

namespace StreamRecord

/-- The events sent behind the last marker. -/
def sinceMarker (records : List StreamRecord) : Nat :=
  (records.rtakeWhile fun record => record.marker?.isNone).length

theorem sinceMarker_event (records : List StreamRecord) (d : Dispatch) :
    sinceMarker (records ++ [.event d]) = sinceMarker records + 1 := by
  rw [sinceMarker, List.rtakeWhile_concat_pos _ _ _ rfl, List.length_append]
  rfl

theorem sinceMarker_marker (records : List StreamRecord) (w : Watermark) :
    sinceMarker (records ++ [.marker w]) = 0 := by
  rw [sinceMarker, List.rtakeWhile_concat_neg _ _ _ Bool.false_ne_true]
  rfl

theorem sinceMarker_append_le {records sent : List StreamRecord}
    (hsent : sent.filterMap dispatch? = []) :
    sinceMarker (records ++ sent) ≤ sinceMarker records := by
  cases sent using List.reverseRecOn with
  | nil => rw [List.append_nil]
  | append_singleton sent record =>
      cases record with
      | event d => simp [dispatch?] at hsent
      | marker w =>
          rw [← List.append_assoc, sinceMarker_marker]
          exact Nat.zero_le _

end StreamRecord

/-- Whether an event can have been handed over since it was last seen if a marker is due. -/
def Stage.isUnchecked : Stage → Bool
  | .tracking .. | .hooking .. | .counting _ | .pulling | .observing _ => true
  | .ended (.error (.source _)) => true
  | _ => false

theorem Stage.Goes.isUnchecked {stage stage' : Stage} (h : Stage.Goes stage stage') :
    stage'.isUnchecked = false → stage.isUnchecked = false := by
  cases h <;> simp [Stage.isUnchecked]

namespace Replay

theorem Stage.Registers.isUnchecked {stage stage' : Stage} (h : Stage.Registers stage stage') :
    stage'.isUnchecked = false → stage.isUnchecked = false := by
  cases h <;> simp [Stage.isUnchecked]

variable {σ : Type} {r r' : Replay σ} {ds : List Dispatch}

/-- Whether at an action a marker is due and a watermark is there. -/
def triggers (r : Replay σ) (action : ReplayAction) : Bool :=
  match r.stage with
  | .observing _ => (r.settles action).isSome
  | _ => false

/-- The beats of an action: one at most. -/
def beat (r : Replay σ) (action : ReplayAction) : List Beat :=
  (r.hands action).toList.map (fun _ => .dispatched) ++
    if r.triggers action then [.triggered] else []

/-- The events handed over since a marker was due last: those that the tracker has counted, and the one
that it has not been told of. -/
def sinceTrigger (r : Replay σ) : Nat := r.tracker.eventsSinceEmit + r.stage.untracked.length

theorem triggers_of_settles_none {action : ReplayAction} (h : r.settles action = none) :
    r.triggers action = false := by
  unfold triggers
  split
  · rw [h]
    rfl
  · rfl

variable [EventSource σ]

/-- The beats of a schedule, in order. -/
def beats (r : Replay σ) : List ReplayAction → List Beat
  | [] => []
  | action :: actions => r.beat action ++ (r.act action).1.beats actions

/-- What a step means for the cadence of markers. -/
inductive Pulse (r : Replay σ) (action : ReplayAction) (r' : Replay σ) : Prop where
  /-- It means nothing. -/
  | rest (hands : r.hands action = none) (triggers : r.triggers action = false)
      (lastEmit : r'.tracker.lastEmit = r.tracker.lastEmit) (since : r'.sinceTrigger = r.sinceTrigger)
      (ready : r.tracker.IsReady → r'.tracker.IsReady)
      (checked : r'.stage.isUnchecked = false → r.stage.isUnchecked = false)
  /-- An event is handed over. -/
  | hand (hands : (r.hands action).isSome = true) (triggers : r.triggers action = false)
      (emits : r.emits action = none) (tracker : r'.tracker = r.tracker)
      (since : r'.sinceTrigger = r.sinceTrigger + 1) (checked : r.stage.isUnchecked = false)
      (unchecked : r'.stage.isUnchecked = true)
  /-- No marker is due, or there is no watermark for it. -/
  | pass (hands : r.hands action = none) (triggers : r.triggers action = false)
      (lastEmit : r'.tracker.lastEmit = r.tracker.lastEmit) (since : r'.sinceTrigger = r.sinceTrigger)
      (ready : r.tracker.IsReady → r'.tracker.IsReady)
      (few : r.tracker.IsReady → 1 ≤ r.tracker.config.eventThreshold →
        r'.sinceTrigger < r.tracker.config.eventThreshold)
  /-- A marker is due and there is a watermark for it. -/
  | trigger (moment : Moment) (produce : action = .produce moment) (hands : r.hands action = none)
      (triggers : r.triggers action = true) (due : r.tracker.isDue moment.now = true)
      (tracked : r.sinceTrigger = r.tracker.eventsSinceEmit)
      (emits : r.tracker.config.enabled = true → (r.emits action).isSome = true)
      (lastEmit : r'.tracker.lastEmit = moment.now) (since : r'.sinceTrigger = 0)

omit [EventSource σ] in
theorem Turn.pulse {action : ReplayAction} (hsilent : Silent r action) (ht : Turn r r') :
    Pulse r action r' := by
  have htriggers := triggers_of_settles_none hsilent.settles
  cases ht with
  | quiet completions tellings stage heq hregisters =>
      subst heq
      refine .rest hsilent.hands htriggers rfl ?_ id hregisters.isUnchecked
      simp only [sinceTrigger, hregisters.untracked]
  | ran tellings stage handle outcome hook hooks heq hregisters =>
      rw [runHook_eq] at heq
      subst heq
      obtain ⟨hlast, hevents, hknown⟩ := hook.trigger_onTracker r.tracker
      refine .rest hsilent.hands htriggers hlast ?_ ?_ hregisters.isUnchecked
      · simp only [sinceTrigger, hregisters.untracked, hevents]
      · intro hready hpos
        exact hknown (hready (hevents ▸ hpos))

theorem tracker_step_observing (hc : Coherent r) {next : Option Event}
    (hstage : r.stage = .observing next) (moment : Moment) :
    (r.step moment).1.tracker = (r.tracker.maybeEmit moment.now
      (next.map fun event => r.outbound event moment.now)).2 := by
  rw [step_observing hstage]
  exact (broadcastMarker_spec (hc.setTracker _) _).1.tracker

theorem tracker_step_closing (hc : Coherent r) (hstage : r.stage = .closing) (moment : Moment) :
    (r.step moment).1.tracker = (r.tracker.emitNow moment.now none).2 := by
  rw [step_closing hstage]
  exact (broadcastMarker_spec (hc.setTracker _) _).1.tracker

theorem pulse_observing (hc : Coherent r) {next : Option Event} (hstage : r.stage = .observing next)
    (moment : Moment) : Pulse r (.produce moment) (r.step moment).1 := by
  have hhands : r.hands (.produce moment) = none := by simp only [hands, hstage]
  have hsettles : r.settles (.produce moment) = if r.tracker.isDue moment.now then
      (r.tracker.settle (next.map fun event => r.outbound event moment.now)).1 else none := by
    simp only [settles, hstage]
  have htriggers : r.triggers (.produce moment) = (r.settles (.produce moment)).isSome := by
    simp only [triggers, hstage]
  have htracked : r.sinceTrigger = r.tracker.eventsSinceEmit := by
    simp only [sinceTrigger, hstage, Stage.untracked, List.length_nil, Nat.add_zero]
  have htracked' : (r.step moment).1.sinceTrigger = (r.step moment).1.tracker.eventsSinceEmit := by
    rw [step_observing hstage]
    rfl
  have hspec := r.tracker.maybeEmit_spec moment.now
    (next.map fun event => r.outbound event moment.now)
  obtain ⟨hlast, hevents⟩ := r.tracker.maybeEmit_trigger moment.now
    (next.map fun event => r.outbound event moment.now)
  rw [← hsettles, ← tracker_step_observing hc hstage] at hspec
  rw [← hsettles, ← htriggers, ← tracker_step_observing hc hstage] at hlast hevents
  by_cases hfired : r.triggers (.produce moment) = true
  · rw [hfired, if_pos rfl] at hlast hevents
    refine .trigger moment rfl hhands hfired ?_ htracked ?_ hlast (htracked'.trans hevents)
    · by_contra hdue
      rw [htriggers, hsettles, if_neg hdue] at hfired
      cases hfired
    · intro henabled
      have hemits : r.emits (.produce moment) =
          (r.settles (.produce moment)).map fun value => ⟨value, moment.now⟩ := by
        have hmarked := hspec.marked
        rw [henabled, if_pos rfl] at hmarked
        rw [← hmarked]
        simp only [emits, hstage]
      rw [hemits, Option.isSome_map, ← htriggers, hfired]
  · have hnot : r.triggers (.produce moment) = false := Bool.eq_false_iff.mpr hfired
    rw [hnot, if_neg Bool.false_ne_true] at hlast hevents
    refine .pass hhands hnot hlast (by omega) ?_ ?_
    · exact fun hready => hready.sameTimes hspec.same hevents.le
    · intro hready hthreshold
      by_contra hmany
      -- enough events to make a marker due are good for a watermark, so that one would be made
      have hsome := hready.settle hthreshold (by omega) moment.now
        (next.map fun event => r.outbound event moment.now)
      rw [← hsettles, ← htriggers] at hsome
      exact hfired hsome

omit [EventSource σ] in
/-- A step that leaves the tracker's triggers alone, at stages at which the tracker knows all that has
been handed over. -/
theorem Pulse.still {action : ReplayAction} (hhands : r.hands action = none)
    (htriggers : r.triggers action = false) (hlast : r'.tracker.lastEmit = r.tracker.lastEmit)
    (hevents : r'.tracker.eventsSinceEmit = r.tracker.eventsSinceEmit)
    (hsame : Tracker.SameTimes r.tracker r'.tracker) (huntracked : r.stage.untracked = [])
    (huntracked' : r'.stage.untracked = [])
    (hchecked : r'.stage.isUnchecked = false → r.stage.isUnchecked = false) : Pulse r action r' := by
  refine .rest hhands htriggers hlast ?_ (fun hready => hready.sameTimes hsame hevents.le) hchecked
  simp only [sinceTrigger, hevents, huntracked, huntracked']

theorem pulse_closing (hc : Coherent r) (hstage : r.stage = .closing) (moment : Moment) :
    Pulse r (.produce moment) (r.step moment).1 := by
  have hstage' : (r.step moment).1.stage = .flushing := by
    rw [step_closing hstage]
  obtain ⟨hlast, hevents⟩ := r.tracker.emitNow_trigger moment.now none
  have hspec := r.tracker.emitNow_spec moment.now none
  rw [← tracker_step_closing hc hstage] at hlast hevents hspec
  exact .still (by simp only [hands, hstage]) (by simp only [triggers, hstage]) hlast hevents hspec.same
    (by rw [hstage]; rfl) (by rw [hstage']; rfl) (by rw [hstage]; exact fun _ => rfl)

theorem Balanced.pulse_of_transition (hb : Balanced r ds) {action : ReplayAction}
    {effects : List Effect} (hact : (r.act action).1 = r') (ht : Transition r action r' effects) :
    Pulse r action r' := by
  cases ht with
  | rest hsilent heq =>
      rw [heq]
      exact .rest hsilent.hands (triggers_of_settles_none hsilent.settles) rfl rfl id id
  | turn hsilent hturn => exact hturn.pulse hsilent
  | move gate tally lag statistics metrics nextTicket stage hsilent hgoes heq =>
      rw [heq]
      obtain ⟨huntracked, huntracked'⟩ := hgoes.untracked
      exact .still hsilent.hands (triggers_of_settles_none hsilent.settles) rfl rfl (.refl _) huntracked
        huntracked' hgoes.isUnchecked
  | hand moment event hproduce hstage heq =>
      rw [heq, hproduce]
      refine .hand (by simp only [hands, hstage]; rfl) (by simp only [triggers, hstage])
        (by simp only [emits, hstage]) rfl ?_ (by rw [hstage]; rfl) rfl
      simp only [sinceTrigger, hstage]
      rfl
  | track moment event handle outbound hproduce hstage heq =>
      rw [heq, hproduce]
      refine .rest (by simp only [hands, hstage]) (by simp only [triggers, hstage]) rfl ?_
        (fun _ _ => r.tracker.isKnown_track outbound) (by rw [hstage]; rintro ⟨⟩)
      simp only [sinceTrigger, hstage]
      rfl
  | pull stage' hsilent hstage hanswer heq =>
      rw [heq]
      have hnext : stage'.untracked = [] ∧ stage'.isUnchecked = true := by
        rcases hanswer with ⟨next, -, rfl⟩ | ⟨fault, -, rfl⟩ <;> exact ⟨rfl, rfl⟩
      exact .still hsilent.hands (triggers_of_settles_none hsilent.settles) rfl rfl (.refl _)
        (by rw [hstage]; rfl) hnext.1 (by simp [hnext.2])
  | observe moment next tracker marked hproduce hstage =>
      rw [← hact, hproduce]
      exact pulse_observing hb.coherent hstage moment
  | report moment next now horizon gate statistics metrics nextTicket stage' line notices hproduce hstage
      hgoes heq =>
      rw [heq, hproduce]
      have hnext : stage'.untracked = [] ∧ stage'.isUnchecked = false := by
        rcases hgoes with ⟨event, -, rfl⟩ | ⟨-, ticket, rfl⟩ <;> exact ⟨rfl, rfl⟩
      exact .still (by simp only [hands, hstage]) (by simp only [triggers, hstage]) rfl rfl
        ⟨rfl, rfl, rfl, rfl⟩ (by rw [hstage]; rfl) hnext.1 (by rw [hstage]; exact fun _ => rfl)
  | drain ticket hsilent hstage hready heq =>
      rw [heq]
      exact .still hsilent.hands (triggers_of_settles_none hsilent.settles) rfl rfl (.refl _)
        (by rw [hstage]; rfl) rfl (by rw [hstage]; exact fun _ => rfl)
  | close moment tracker marked hproduce hstage =>
      rw [← hact, hproduce]
      exact pulse_closing hb.coherent hstage moment
  | finish moment metrics hsilent hflushed hstage heq =>
      rw [heq]
      exact .still hsilent.hands (triggers_of_settles_none hsilent.settles) rfl rfl (.refl _)
        (by rw [hstage]; rfl) rfl (by rw [hstage]; exact fun _ => rfl)

theorem Balanced.pulse (hb : Balanced r ds) (action : ReplayAction) :
    Pulse r action (r.act action).1 :=
  hb.pulse_of_transition rfl (hb.transition action)

/-! ## Whole runs -/

/-- Every time that a marker was due, the interval has passed, or a threshold of events was used up. -/
def Paid (r : Replay σ) (start : Int) (beats : List Beat) : Prop :=
  ∃ timed counted : Nat, beats.count .triggered ≤ timed + counted ∧
    start + (timed * r.tracker.config.interval : Nat) ≤ r.tracker.lastEmit ∧
    counted * r.tracker.config.eventThreshold + r.sinceTrigger ≤ beats.count .dispatched

/-- The cadence of markers in a replay that started at a time, up to a reading of the clock. -/
structure Cadenced (r : Replay σ) (start now : Int) (beats : List Beat) (records : List StreamRecord) :
    Prop where
  since : Beat.sinceTrigger beats = r.sinceTrigger
  ready : r.tracker.IsReady
  few : r.sinceTrigger ≤ r.tracker.config.eventThreshold
  fewer : r.stage.isUnchecked = false → r.sinceTrigger < r.tracker.config.eventThreshold
  past : r.tracker.lastEmit ≤ now
  sent : r.tracker.config.enabled = true → StreamRecord.sinceMarker records ≤ r.sinceTrigger
  paid : (r.tracker.config.interval : Int) ≤ Millis.latest → r.Paid start beats

variable {start now : Int} {beats : List Beat} {records : List StreamRecord}

omit [EventSource σ] in
/-- Neither an event nor a marker that is due: at most the last marker is sent. -/
theorem Cadenced.idle (h : Cadenced r start now beats records) {now' : Int} (hnow : now ≤ now')
    {sent : List StreamRecord} (hsent : sent.filterMap StreamRecord.dispatch? = [])
    (hconfig : r'.tracker.config = r.tracker.config)
    (hlast : r'.tracker.lastEmit = r.tracker.lastEmit) (hsince : r'.sinceTrigger = r.sinceTrigger)
    (hready : r.tracker.IsReady → r'.tracker.IsReady)
    (hfewer : r'.stage.isUnchecked = false → r.sinceTrigger < r.tracker.config.eventThreshold) :
    Cadenced r' start now' beats (records ++ sent) := by
  refine ⟨h.since.trans hsince.symm, hready h.ready, ?_, ?_, ?_, ?_, ?_⟩
  · rw [hsince, hconfig]
    exact h.few
  · rw [hsince, hconfig]
    exact hfewer
  · rw [hlast]
    exact h.past.trans hnow
  · intro henabled
    rw [hconfig] at henabled
    rw [hsince]
    calc StreamRecord.sinceMarker (records ++ sent)
        ≤ StreamRecord.sinceMarker records := StreamRecord.sinceMarker_append_le hsent
      _ ≤ r.sinceTrigger := h.sent henabled
  · intro hinterval
    rw [hconfig] at hinterval
    unfold Paid
    rw [hconfig, hlast, hsince]
    exact h.paid hinterval

omit [EventSource σ] in
theorem Cadenced.hand (h : Cadenced r start now beats records) {now' : Int} (hnow : now ≤ now')
    (d : Dispatch) (htracker : r'.tracker = r.tracker) (hsince : r'.sinceTrigger = r.sinceTrigger + 1)
    (hchecked : r.stage.isUnchecked = false) (hunchecked : r'.stage.isUnchecked = true) :
    Cadenced r' start now' (beats ++ [.dispatched]) (records ++ [.event d]) := by
  have hfewer := h.fewer hchecked
  refine ⟨?_, htracker ▸ h.ready, ?_, ?_, ?_, ?_, ?_⟩
  · rw [Beat.sinceTrigger_dispatched, h.since, hsince]
  · rw [htracker, hsince]
    exact hfewer
  · rw [hunchecked]
    rintro ⟨⟩
  · rw [htracker]
    exact h.past.trans hnow
  · intro henabled
    rw [htracker] at henabled
    rw [StreamRecord.sinceMarker_event, hsince]
    exact Nat.succ_le_succ (h.sent henabled)
  · intro hinterval
    rw [htracker] at hinterval
    obtain ⟨timed, counted, htriggered, htimed, hcounted⟩ := h.paid hinterval
    refine ⟨timed, counted, ?_, ?_, ?_⟩
    · rw [List.count_append]
      exact htriggered
    · rw [htracker]
      exact htimed
    · rw [htracker, hsince, List.count_append]
      show _ ≤ _ + 1
      omega

omit [EventSource σ] in
theorem Cadenced.trigger (h : Cadenced r start now beats records) {now' : Int} (hnow : now ≤ now')
    (hthreshold : 1 ≤ r.tracker.config.eventThreshold) {sent : List StreamRecord}
    (hsent : r.tracker.config.enabled = true → ∃ w, sent = [.marker w])
    (hdue : r.tracker.isDue now' = true) (htracked : r.sinceTrigger = r.tracker.eventsSinceEmit)
    (hconfig : r'.tracker.config = r.tracker.config) (hlast : r'.tracker.lastEmit = now')
    (hsince : r'.sinceTrigger = 0) :
    Cadenced r' start now' (beats ++ [.triggered]) (records ++ sent) := by
  refine ⟨?_, ?_, ?_, ?_, ?_, ?_, ?_⟩
  · rw [Beat.sinceTrigger_triggered, hsince]
  · intro hpos
    unfold sinceTrigger at hsince
    omega
  · omega
  · intro _
    rw [hsince, hconfig]
    exact hthreshold
  · exact hlast.le
  · intro henabled
    obtain ⟨w, rfl⟩ := hsent (hconfig ▸ henabled)
    rw [StreamRecord.sinceMarker_marker]
    exact Nat.zero_le _
  · intro hinterval
    rw [hconfig] at hinterval
    obtain ⟨timed, counted, htriggered, htimed, hcounted⟩ := h.paid hinterval
    have hpast := h.past
    have hcount : (beats ++ [Beat.triggered]).count .triggered = beats.count .triggered + 1 := by
      rw [List.count_append]
      rfl
    have hsame : (beats ++ [Beat.triggered]).count .dispatched = beats.count .dispatched := by
      rw [List.count_append]
      rfl
    unfold Paid
    rw [hconfig, hlast, hsince, hcount, hsame]
    -- the time since the last marker that was due pays for this one, or the events since then do
    rcases r.tracker.due_cases hdue hinterval with htime | hmany
    · refine ⟨timed + 1, counted, by omega, ?_, by omega⟩
      rw [Nat.succ_mul]
      push_cast at htimed ⊢
      omega
    · refine ⟨timed, counted + 1, by omega, by omega, ?_⟩
      rw [Nat.succ_mul]
      omega

theorem Cadenced.act (hb : Balanced r ds) (h : Cadenced r start now beats records)
    (hthreshold : 1 ≤ r.tracker.config.eventThreshold) (action : ReplayAction)
    (hnow : now ≤ action.reading.getD now) :
    Cadenced (r.act action).1 start (action.reading.getD now) (beats ++ r.beat action)
      (records ++ r.sends action) := by
  have hconfig := (hb.fixed action).config
  cases hb.pulse action with
  | rest hhands htriggers hlast hsince hready hchecked =>
      have hbeat : r.beat action = [] := by simp [beat, hhands, htriggers]
      rw [hbeat, List.append_nil]
      refine h.idle hnow ?_ hconfig hlast hsince hready fun hstage => h.fewer (hchecked hstage)
      rw [filterMap_dispatch?_sends, hhands, Option.toList_none]
  | pass hhands htriggers hlast hsince hready hfew =>
      have hbeat : r.beat action = [] := by simp [beat, hhands, htriggers]
      rw [hbeat, List.append_nil]
      refine h.idle hnow ?_ hconfig hlast hsince hready fun _ => hsince ▸ hfew h.ready hthreshold
      rw [filterMap_dispatch?_sends, hhands, Option.toList_none]
  | hand hhands htriggers hemits htracker hsince hchecked hunchecked =>
      obtain ⟨d, hd⟩ := Option.isSome_iff_exists.mp hhands
      have hbeat : r.beat action = [.dispatched] := by simp [beat, hd, htriggers]
      have hsends : r.sends action = [.event d] := by simp [sends, hd, hemits]
      rw [hbeat, hsends]
      exact h.hand hnow d htracker hsince hchecked hunchecked
  | trigger moment hproduce hhands htriggers hdue htracked hemits hlast hsince =>
      have hbeat : r.beat action = [.triggered] := by simp [beat, hhands, htriggers]
      have hreading : action.reading.getD now = moment.now := by rw [hproduce]; rfl
      rw [hreading] at hnow ⊢
      rw [hbeat]
      refine h.trigger hnow hthreshold ?_ hdue htracked hconfig hlast hsince
      intro henabled
      obtain ⟨w, hw⟩ := Option.isSome_iff_exists.mp (hemits henabled)
      exact ⟨w, by simp [sends, hhands, hw]⟩

omit [EventSource σ] in
theorem readings_cons_append {action : ReplayAction} {actions : List ReplayAction} {later : Int}
    (hclock : (now :: (readings (action :: actions) ++ [later])).Pairwise (· ≤ ·)) :
    now ≤ action.reading.getD now ∧
    (action.reading.getD now :: (readings actions ++ [later])).Pairwise (· ≤ ·) := by
  -- a reading behind the schedule is that of one more step
  have hconcat : ∀ schedule : List ReplayAction,
      readings schedule ++ [later] = readings (schedule ++ [.produce ⟨0, later⟩]) := fun schedule =>
    (readings_append schedule [.produce ⟨0, later⟩]).symm
  rw [hconcat] at hclock ⊢
  exact readings_cons hclock

theorem Cadenced.follow (hb : Balanced r ds) (h : Cadenced r start now beats records)
    (hthreshold : 1 ≤ r.tracker.config.eventThreshold) (actions : List ReplayAction) {later : Int}
    (hclock : (now :: (readings actions ++ [later])).Pairwise (· ≤ ·)) :
    Cadenced (r.follow actions).1 start later (beats ++ r.beats actions)
      (records ++ r.records actions) := by
  induction actions generalizing r ds now beats records with
  | nil =>
      have hlater : now ≤ later := List.rel_of_pairwise_cons hclock (List.mem_singleton_self _)
      rw [show r.beats [] = [] from rfl, List.append_nil]
      exact h.idle hlater rfl rfl rfl rfl id h.fewer
  | cons action actions ih =>
      obtain ⟨hnow, hclock'⟩ := readings_cons_append hclock
      have hrest := ih (hb.act action) (h.act hb hthreshold action hnow)
        ((hb.fixed action).config ▸ hthreshold) hclock'
      rw [List.append_assoc, List.append_assoc] at hrest
      exact hrest

end Replay

end EventReplay
