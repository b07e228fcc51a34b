import EventReplay.Proofs.StreamRecords

/-!
# Report, tracker and metrics agree

Dispatches and failures are counted for the report and in the metrics, and markers in the tracker and in
the metrics, by the producer or by hooks that run at any time. `Replay.Metered` says that the metrics
show what has been counted so far, and the value of the last marker; every step keeps it
(`Replay.Metered.act`). Once a replay has ended with a report nothing that is counted changes any more
(`Replay.Balanced.act_of_ended`).
-/

set_option autoImplicit false

namespace EventReplay

/-- The payload of a broadcast. -/
def Effect.marker? : Effect → Option Bytes
  | .broadcast _ _ payload => some payload
  | _ => none

theorem Effect.marker?_of_not_isForSink (effect : Effect) (h : effect.isForSink = false) :
    effect.marker? = none := by
  cases effect with
  | broadcast first stream payload => simp [isForSink] at h
  | _ => rfl

namespace ReplayMetrics

/-- Metrics show what has been counted, and the value of the last marker. -/
structure Shows (m : ReplayMetrics) (tally : Tally) (tracker : Tracker) (markers : List Watermark) :
    Prop where
  dispatched : m.dispatched = tally.dispatched
  failures : m.failures = tally.failed
  emitted : m.watermarksEmitted = tracker.emitted
  watermark : ∀ w, markers.getLast? = some w → m.watermark = w.value

variable {m : ReplayMetrics} {tally : Tally} {tracker : Tracker} {markers : List Watermark}

theorem Shows.setOutstanding (h : m.Shows tally tracker markers) (outstanding : Nat) :
    (m.setOutstanding outstanding).Shows tally tracker markers := by
  unfold ReplayMetrics.setOutstanding
  exact ⟨h.dispatched, h.failures, h.emitted, h.watermark⟩

theorem outstanding_setOutstanding_zero (m : ReplayMetrics) : (m.setOutstanding 0).outstanding = 0 := by
  show Millis.wrap (0 : Nat) = 0
  decide

theorem Shows.setLag (h : m.Shows tally tracker markers) (seconds : Float) :
    (m.setLag seconds).Shows tally tracker markers := by
  unfold ReplayMetrics.setLag
  exact ⟨h.dispatched, h.failures, h.emitted, h.watermark⟩

theorem Shows.settle (h : m.Shows tally tracker markers) (horizon : Option Int) :
    m.Shows tally (tracker.settle horizon).2 markers :=
  ⟨h.dispatched, h.failures, h.emitted, h.watermark⟩

end ReplayMetrics

namespace Replay

variable {σ : Type} {r r' : Replay σ} {ds : List Dispatch} {markers : List Watermark}

/-- The metrics of a replay that has broadcast some markers show what it has counted. -/
def Metered (r : Replay σ) (markers : List Watermark) : Prop :=
  ∃ m, r.metrics = some m ∧ m.Shows r.tally r.tracker markers

/-! ## What changes the metrics -/

/-- The metrics change, and show what is counted as before. -/
theorem Metered.update {f : ReplayMetrics → ReplayMetrics} {markers' : List Watermark}
    (h : Metered r markers) (hmetrics : r'.metrics = r.metrics.map f)
    (hshows : ∀ m : ReplayMetrics, m.Shows r.tally r.tracker markers →
      (f m).Shows r'.tally r'.tracker markers') : Metered r' markers' := by
  obtain ⟨m, hm, hm'⟩ := h
  exact ⟨f m, by rw [hmetrics, hm]; rfl, hshows m hm'⟩

/-- Where nothing is counted, the metrics need not change. -/
theorem Metered.keep (h : Metered r markers) (hmetrics : r'.metrics = r.metrics)
    (hdispatched : r'.tally.dispatched = r.tally.dispatched) (hfailed : r'.tally.failed = r.tally.failed)
    (hemitted : r'.tracker.emitted = r.tracker.emitted) : Metered r' markers := by
  obtain ⟨m, hm, hshows⟩ := h
  refine ⟨m, hmetrics.trans hm, ?_, ?_, ?_, hshows.watermark⟩
  · rw [hdispatched, hshows.dispatched]
  · rw [hfailed, hshows.failures]
  · rw [hemitted, hshows.emitted]

/-- A failure is counted in the metrics by the hook that counts it. -/
theorem Metered.runHook (h : Metered r markers) (outcome : Outcome) (hook : Hook) :
    Metered (r.runHook outcome hook).1 markers := by
  rw [runHook_eq]
  by_cases hfails : hook.failures outcome = 1
  · refine h.update (f := ReplayMetrics.recordFailure) (if_pos hfails) ?_
    intro m hm
    refine ⟨hm.dispatched, ?_, ?_, hm.watermark⟩
    · show m.failures + 1 = r.tally.failed + hook.failures outcome
      rw [hfails, hm.failures]
    · show m.watermarksEmitted = (hook.onTracker r.tracker).emitted
      rw [hook.emitted_onTracker, hm.emitted]
  · have hzero : hook.failures outcome = 0 := by
      cases hook with
      | countFailure timestamp key =>
          simp only [Hook.failures] at hfails ⊢
          split at hfails <;> simp_all
      | _ => rfl
    refine h.keep (if_neg hfails) rfl ?_ (hook.emitted_onTracker _)
    show r.tally.failed + hook.failures outcome = _
    rw [hzero, Nat.add_zero]

theorem Metered.turn (h : Metered r markers) (ht : Turn r r') : Metered r' markers := by
  cases ht with
  | quiet completions tellings stage heq =>
      subst heq
      exact h.keep rfl rfl rfl rfl
  | ran tellings stage handle outcome hook hooks heq =>
      have hstage : Metered { r with tellings, stage } markers := h
      rw [heq]
      exact hstage.runHook outcome hook

/-- A marker shows in the metrics when it is broadcast. -/
theorem Metered.marked {tracker : Tracker} {now : Int} {settled : Option Int} {marked : Replay σ}
    {marker : Option Watermark} (h : Metered r markers)
    (he : Tracker.Emission r.tracker tracker now settled marker)
    (hm : Marked { r with tracker } marked marker) : Metered marked (markers ++ marker.toList) := by
  have htally : marked.tally = r.tally := hm.tally
  have hemitted : marked.tracker.emitted = r.tracker.emitted + marker.toList.length := by
    rw [← he.emitted]
    exact congrArg Tracker.emitted hm.tracker
  have hmetrics := congrArg Replay.metrics hm.eq
  cases marker with
  | none =>
      rw [Option.toList_none, List.append_nil]
      exact h.keep hmetrics (by rw [htally]) (by rw [htally]) hemitted
  | some w =>
      refine h.update (f := fun m => m.recordWatermark w.value) hmetrics ?_
      intro m hshows
      refine ⟨?_, ?_, ?_, ?_⟩
      · rw [htally]
        exact hshows.dispatched
      · rw [htally]
        exact hshows.failures
      · rw [hemitted, ← hshows.emitted]
        rfl
      · intro w' hw'
        obtain rfl : w = w' := by simpa using hw'
        rfl

/-! ## Every step -/

variable [EventSource σ]

/-- One case for each stage of the producer. -/
theorem Metered.step (hb : Balanced r ds) (h : Metered r markers) (moment : Moment) :
    Metered (r.step moment).1 (markers ++ (r.emits (.produce moment)).toList) := by
  have hcoherent := hb.coherent.setTracker
  rcases hstage : r.stage with event | event | ⟨event, ticket⟩ | event | ⟨event, handle, outbound⟩ |
    ⟨event, handle, _ | ⟨hook, hooks⟩⟩ | event | _ | next | ⟨next, now, horizon⟩ | ticket | _ | _ |
    result
  case observing =>
    have hemits : r.emits (.produce moment) = (r.tracker.maybeEmit moment.now
        (next.map fun event => r.outbound event moment.now)).1 := by simp only [emits, hstage]
    have hmarked := h.marked (r.tracker.maybeEmit_spec ..)
      (broadcastMarker_spec (hcoherent (r.tracker.maybeEmit moment.now
        (next.map fun event => r.outbound event moment.now)).2) _).1
    rw [hemits, step_observing hstage]
    exact hmarked
  case closing =>
    have hemits : r.emits (.produce moment) = (r.tracker.emitNow moment.now none).1 := by
      simp only [emits, hstage]
    have hmarked := h.marked (r.tracker.emitNow_spec moment.now none)
      (broadcastMarker_spec (hcoherent (r.tracker.emitNow moment.now none).2) _).1
    rw [hemits, step_closing hstage]
    exact hmarked
  -- no marker is made at the other stages
  all_goals
    have hemits : r.emits (.produce moment) = none := by simp only [emits, hstage]
    rw [hemits, Option.toList_none, List.append_nil]
  case hooking.cons =>
    have hturn := turn_register hb.coherent hstage (hb.hooking _ _ _ hstage)
    simp only [Replay.step, hstage]
    exact h.turn hturn
  all_goals simp only [Replay.step, hstage]
  case pacing =>
    split
    · exact h.keep rfl rfl rfl rfl
    · exact h.keep rfl rfl rfl rfl
  case reserving =>
    split
    · exact h
    · split
      · exact h.keep rfl rfl rfl rfl
      · exact h
  case counting =>
    refine h.update (f := ReplayMetrics.recordDispatch) rfl ?_
    intro m hm
    exact ⟨congrArg (· + 1) hm.dispatched, hm.failures, hm.emitted, hm.watermark⟩
  case reporting =>
    have hgauges : ∀ m : ReplayMetrics, m.Shows r.tally r.tracker markers →
        ((m.setOutstanding r.gate.outstanding).setLag r.lag).Shows r.tally
          (r.tracker.settle horizon).2 markers :=
      fun m hm => ((hm.setOutstanding r.gate.outstanding).setLag r.lag).settle horizon
    cases next with
    | some event => exact h.update rfl hgauges
    | none => exact h.update rfl hgauges
  case draining =>
    split
    · exact h
    · split
      · exact h.keep rfl rfl rfl rfl
      · exact h
  all_goals exact h.keep rfl rfl rfl rfl

theorem Metered.act (hb : Balanced r ds) (h : Metered r markers) (action : ReplayAction) :
    Metered (r.act action).1 (markers ++ (r.emits action).toList) := by
  cases action with
  | produce moment => exact h.step hb moment
  | tell handle outcome =>
      rw [show r.emits (.tell handle outcome) = none from rfl, Option.toList_none, List.append_nil]
      exact h.turn (turn_tell hb.coherent outcome)
  | continueTelling handle =>
      rw [show r.emits (.continueTelling handle) = none from rfl, Option.toList_none, List.append_nil]
      exact h.turn (turn_continueTelling hb.coherent)
  | wake =>
      rw [show r.emits .wake = none from rfl, Option.toList_none, List.append_nil]
      show Metered r.wake markers
      unfold Replay.wake
      split
      · exact h.keep rfl rfl rfl rfl
      · exact h
  | flushed moment result =>
      rw [show r.emits (.flushed moment result) = none from rfl, Option.toList_none, List.append_nil]
      show Metered (r.flushed moment result).1 markers
      unfold Replay.flushed
      split
      · cases result with
        | error fault => exact h.keep rfl rfl rfl rfl
        | ok =>
            exact h.update (f := fun m => m.setOutstanding r.gate.outstanding) rfl
              fun m hm => hm.setOutstanding r.gate.outstanding
      · exact h

theorem Metered.follow (hb : Balanced r ds) (h : Metered r markers) (actions : List ReplayAction) :
    Metered (r.follow actions).1
      (markers ++ (r.records actions).filterMap StreamRecord.marker?) := by
  induction actions generalizing r ds markers with
  | nil => simpa [Replay.follow, records] using h
  | cons action actions ih =>
      have hrest := ih (hb.act action) (h.act hb action)
      rw [List.append_assoc] at hrest
      rw [records, List.filterMap_append, filterMap_marker?_sends]
      exact hrest

/-! ## The markers that the sink sees -/

/-- What an action broadcasts is the marker that it makes. -/
theorem Balanced.broadcasts_act (hb : Balanced r ds) (action : ReplayAction) :
    (r.act action).2.filterMap Effect.marker? = (r.emits action).toList.map encodeWatermark := by
  rw [← filterMap_isForSink Effect.marker?_of_not_isForSink, hb.forSink_act]
  cases r.hands action <;> cases r.emits action <;> cases r.asksFlush action <;> rfl

theorem Balanced.broadcasts_follow (hb : Balanced r ds) (actions : List ReplayAction) :
    (r.follow actions).2.filterMap Effect.marker? =
      ((r.records actions).filterMap StreamRecord.marker?).map encodeWatermark := by
  induction actions generalizing r ds with
  | nil => rfl
  | cons action actions ih =>
      calc (r.follow (action :: actions)).2.filterMap Effect.marker?
          = (r.act action).2.filterMap Effect.marker? ++
              ((r.act action).1.follow actions).2.filterMap Effect.marker? := List.filterMap_append ..
        _ = (r.emits action).toList.map encodeWatermark ++
              (((r.act action).1.records actions).filterMap StreamRecord.marker?).map
                encodeWatermark := by rw [hb.broadcasts_act, ih (hb.act action)]
        _ = ((r.records (action :: actions)).filterMap StreamRecord.marker?).map encodeWatermark := by
            rw [records, List.filterMap_append, filterMap_marker?_sends, List.map_append]

omit [EventSource σ] in
/-- Markers are made only where the plan asks for them. -/
theorem enabled_of_emits {action : ReplayAction} {w : Watermark} (h : r.emits action = some w) :
    r.tracker.config.enabled = true := by
  have hmarked : ∀ {tracker : Tracker} {now : Int} {settled : Option Int},
      Tracker.Emission r.tracker tracker now settled (some w) → r.tracker.config.enabled = true := by
    intro tracker now settled he
    by_contra hdisabled
    have hnone := he.marked
    rw [if_neg hdisabled] at hnone
    simp at hnone
  cases action with
  | produce moment =>
      simp only [emits] at h
      split at h
      · exact hmarked (h ▸ r.tracker.maybeEmit_spec ..)
      · exact hmarked (h ▸ r.tracker.emitNow_spec ..)
      · simp at h
  | _ => simp [emits] at h

theorem Balanced.enabled_of_marker (hb : Balanced r ds) (actions : List ReplayAction) {w : Watermark}
    (h : .marker w ∈ r.records actions) : r.tracker.config.enabled = true := by
  induction actions generalizing r ds with
  | nil => simp [records] at h
  | cons action actions ih =>
      rcases List.mem_append.mp h with h | h
      · exact enabled_of_emits (by simpa [sends] using h)
      · rw [← (hb.fixed action).config]
        exact ih (hb.act action) h

/-- Where a marker has been made a watermark has been settled. -/
theorem Balanced.current_of_marker (hb : Balanced r ds) (actions : List ReplayAction) {w : Watermark}
    (h : .marker w ∈ r.records actions) : ∃ c, (r.follow actions).1.tracker.current = some c := by
  induction actions generalizing r ds with
  | nil => simp [records] at h
  | cons action actions ih =>
      rcases List.mem_append.mp h with h | h
      · have hemits : r.emits action = some w := by simpa [sends] using h
        have hcurrent := (hb.settles_act (emits_eq r action hemits).1).1
        obtain ⟨c, hc, -⟩ := (hb.act action).current_follow actions hcurrent
        exact ⟨c, hc⟩
      · exact ih (hb.act action) h

/-- While the flush is waited for, the last marker is one of the watermark that was settled last. -/
theorem Balanced.current_of_last_marker (hb : Balanced r ds) (hstart : r.stage ≠ .flushing)
    (actions : List ReplayAction) (hflushing : (r.follow actions).1.stage = .flushing) {w : Watermark}
    (h : ((r.records actions).filterMap StreamRecord.marker?).getLast? = some w) :
    (r.follow actions).1.tracker.current = some w.value := by
  have hmem : .marker w ∈ r.records actions := by
    obtain ⟨record, hrecord, hmarker⟩ := List.mem_filterMap.mp (List.mem_of_getLast? h)
    cases record with
    | event d => simp [StreamRecord.marker?] at hmarker
    | marker w' =>
        obtain rfl : w' = w := by simpa [StreamRecord.marker?] using hmarker
        exact hrecord
  obtain ⟨c, hc⟩ := hb.current_of_marker actions hmem
  obtain ⟨last, hlast, rfl⟩ :=
    hb.getLast_records hstart actions hflushing (hb.enabled_of_marker actions hmem) hc
  obtain ⟨records, hrecords⟩ := List.getLast?_eq_some_iff.mp hlast
  obtain rfl : last = w := by simpa [hrecords, StreamRecord.marker?] using h
  exact hc

/-! ## From the flush on -/

/-- Of a replay that has ended only outcomes are still told. -/
theorem Balanced.turn_of_ended (hb : Balanced r ds) {result : Except ReplayFault ReplayReport}
    (hstage : r.stage = .ended result) (action : ReplayAction) : Turn r (r.act action).1 := by
  cases hb.transition action with
  | rest hsilent heq =>
      rw [heq]
      exact .refl hb.coherent
  | turn hsilent hturn => exact hturn
  | move _ _ _ _ _ _ _ hsilent hgoes =>
      rw [hstage] at hgoes
      cases hgoes
  | hand _ _ _ hstage' => simp [hstage] at hstage'
  | track _ _ _ _ _ hstage' => simp [hstage] at hstage'
  | pull _ _ hstage' => simp [hstage] at hstage'
  | observe _ _ _ _ _ hstage' => simp [hstage] at hstage'
  | report _ _ _ _ _ _ _ _ _ _ _ _ hstage' => simp [hstage] at hstage'
  | drain _ _ hstage' => simp [hstage] at hstage'
  | close _ _ _ _ hstage' => simp [hstage] at hstage'
  | finish _ _ _ _ hstage' => simp [hstage] at hstage'

omit [EventSource σ] in
theorem Turn.stage_of_ended (ht : Turn r r') {result : Except ReplayFault ReplayReport}
    (hstage : r.stage = .ended result) : r'.stage = r.stage := by
  have hregisters := ht.registers
  rw [hstage] at hregisters ⊢
  generalize r'.stage = stage at hregisters
  cases hregisters
  rfl

/-- Once it has ended with all permits back, these are outcomes of markers, and nothing is counted. -/
theorem Balanced.act_of_ended (hb : Balanced r ds) {result : Except ReplayFault ReplayReport}
    (hstage : r.stage = .ended result) (hout : r.gate.outstanding = 0) (action : ReplayAction) :
    ∃ completions tellings, (r.act action).1 = { r with completions, tellings } := by
  have hturn := hb.turn_of_ended hstage action
  have hsame := hturn.stage_of_ended hstage
  generalize (r.act action).1 = r' at hturn hsame ⊢
  cases hturn with
  | quiet completions tellings stage heq =>
      subst heq
      exact ⟨completions, tellings, by rw [show stage = r.stage from hsame]⟩
  | ran tellings stage handle outcome hook hooks heq hregisters hcoherent htold hhead =>
      obtain ⟨permits, -, hbooks⟩ := hb.books
      have hnew : handle ∉ ds.map Dispatch.handle := by
        intro hmem
        obtain ⟨d, hd, rfl⟩ := List.mem_map.mp hmem
        rw [hb.owed_eq_nil hout d hd] at hhead
        simp at hhead
      obtain ⟨shard, watermark, rfl⟩ := hbooks.notes handle hnew hook (hhead ▸ .head _)
      rw [runHook_eq] at heq
      subst heq
      exact ⟨r.completions, tellings, by rw [show stage = r.stage from hsame]; rfl⟩

theorem Balanced.follow_of_ended (hb : Balanced r ds) {result : Except ReplayFault ReplayReport}
    (hstage : r.stage = .ended result) (hout : r.gate.outstanding = 0) (actions : List ReplayAction) :
    ∃ completions tellings, (r.follow actions).1 = { r with completions, tellings } := by
  induction actions generalizing r ds with
  | nil => exact ⟨r.completions, r.tellings, rfl⟩
  | cons action actions ih =>
      obtain ⟨completions, tellings, hact⟩ := hb.act_of_ended hstage hout action
      obtain ⟨completions', tellings', hrest⟩ :=
        ih (hb.act action) (by rw [hact]; exact hstage) (by rw [hact]; exact hout)
      refine ⟨completions', tellings', ?_⟩
      show ((r.act action).1.follow actions).1 = _
      rw [hrest, hact]

/-- The report is made when the flush is answered, and nothing that it says changes after that. -/
theorem Balanced.follow_of_flushing (hb : Balanced r ds) (hflushing : r.stage = .flushing)
    (hout : r.gate.outstanding = 0) (moment : Moment) (after : List ReplayAction) :
    ∃ completions tellings, (r.follow (.flushed moment (.ok ()) :: after)).1 =
      { r with
        completions, tellings
        stage := .ended (.ok (r.report moment.elapsed))
        metrics := r.metrics.map fun m => m.setOutstanding 0 } := by
  have hact : (r.act (.flushed moment (.ok ()))).1 =
      { r with
        stage := .ended (.ok (r.report moment.elapsed))
        metrics := r.metrics.map fun m => m.setOutstanding 0 } := by
    simp [Replay.act, Replay.flushed, hflushing, onMetrics, hout]
  obtain ⟨completions, tellings, hlater⟩ :=
    (hb.act (.flushed moment (.ok ()))).follow_of_ended (by rw [hact]) (by rw [hact]; exact hout) after
  refine ⟨completions, tellings, ?_⟩
  show ((r.act (.flushed moment (.ok ()))).1.follow after).1 = _
  rw [hlater, hact]

/-! ## The agreement -/

/-- Whatever the plan and however outcomes come back: once a replay of some events has returned a report,
its metrics, which were new at the start, show what the report says. Each marker that was broadcast is
counted, and the last one of them shows; no dispatch is outstanding. Without markers in the plan there
are none. -/
theorem metrics_agree {source : σ} {first : Event}
    (hsource : (EventSource.next source).answer = .ok (some first)) (plan : ReplayPlan) (label : String)
    (shards : Nat) (start : Moment) (schedule : List ReplayAction) (report : ReplayReport)
    (hended : ((ofSource plan (some { stream := label }) shards start source).1.follow
      schedule).1.result? = some (.ok report)) :
    let opened := ofSource plan (some { stream := label }) shards start source
    let run := opened.1.follow schedule
    ∃ m markers, run.1.metrics = some m ∧
      (opened.2 ++ run.2).filterMap Effect.marker? = markers.map encodeWatermark ∧
      m.dispatched = report.dispatched ∧ m.failures = report.failed ∧
      (m.watermarksEmitted = report.watermarksEmitted ∧ report.watermarksEmitted = markers.length) ∧
      m.outstanding = 0 ∧
      (∀ w, markers.getLast? = some w →
        m.watermark = w.value ∧ report.lastWatermark = some w.value) ∧
      (plan.watermark.enabled = false → markers = [] ∧ report.watermarksEmitted = 0) := by
  have hb₀ := balanced_ofSource plan (some { stream := label }) shards start source
  have hstart := starts_ofSource plan (some { stream := label }) shards start source
  have hrunning : ∀ report,
      (ofSource plan (some { stream := label }) shards start source).1.stage ≠ .ended (.ok report) := by
    simp [ofSource, hsource]
  have hmetered : Metered (ofSource plan (some { stream := label }) shards start source).1 [] := by
    simp only [ofSource, hsource]
    exact ⟨{ stream := label }, rfl, rfl, rfl, rfl, by simp⟩
  have hopening : (ofSource plan (some { stream := label }) shards start source).2.filterMap
      Effect.marker? = [] := by
    rw [← filterMap_isForSink Effect.marker?_of_not_isForSink, forSink_ofSource]
    rfl
  generalize ofSource plan (some { stream := label }) shards start source = opened at *
  obtain ⟨before, moment, after, rfl, hflushing, hreport, hrecords⟩ :=
    hb₀.ended_split hrunning schedule (stage_of_result? hended)
  have hout := hstart.outstanding_eq_zero hb₀ before (by rw [hflushing]; rfl)
  obtain ⟨completions, tellings, hlater⟩ :=
    (hb₀.follow before).follow_of_flushing hflushing hout moment after
  have hfinal := (opened.1.follow_append before (.flushed moment (.ok ()) :: after)).1.trans hlater
  obtain ⟨m, hm, hshows⟩ := hmetered.follow hb₀ before
  have hemitted := hb₀.emitted_follow before
  rw [hstart.emitted, Nat.zero_add] at hemitted
  refine ⟨m.setOutstanding 0, (opened.1.records before).filterMap StreamRecord.marker?, ?_, ?_, ?_, ?_,
    ⟨?_, ?_⟩, ReplayMetrics.outstanding_setOutstanding_zero m, ?_, ?_⟩
  · show (opened.1.follow (before ++ .flushed moment (.ok ()) :: after)).1.metrics = _
    rw [hfinal]
    exact congrArg (Option.map fun m => m.setOutstanding 0) hm
  · rw [List.filterMap_append, hopening, hb₀.broadcasts_follow, hrecords]
    rfl
  · rw [hreport]
    exact hshows.dispatched
  · rw [hreport]
    exact hshows.failures
  · rw [hreport]
    exact hshows.emitted
  · rw [hreport]
    exact hemitted
  · intro w hw
    rw [hreport]
    exact ⟨hshows.watermark w hw, hb₀.current_of_last_marker hstart.flushing before hflushing hw⟩
  · intro hdisabled
    have hnil : (opened.1.records before).filterMap StreamRecord.marker? = [] := by
      rw [List.filterMap_eq_nil_iff]
      intro record hrecord
      cases record with
      | event d => rfl
      | marker w =>
          have henabled := hb₀.enabled_of_marker before hrecord
          rw [hstart.config, hdisabled] at henabled
          simp at henabled
    refine ⟨hnil, ?_⟩
    rw [hreport]
    exact hemitted.trans (by rw [hnil]; rfl)

/-- Two events, of which the second fails, and a marker after each of them. -/
theorem metrics_agree_two_events :
    let plan : ReplayPlan := { watermark := { eventThreshold := 1 } }
    let source := EventQueue.mk [⟨10, "a", []⟩, ⟨20, "b", []⟩]
    let replay := (ofSource plan (some { stream := "s" }) 2 ⟨0, 100⟩ source).1
    let steps := fun n => List.replicate n (ReplayAction.produce ⟨1000000, 100⟩)
    let told := fun handle outcome =>
      ReplayAction.tell handle outcome :: List.replicate 4 (.continueTelling handle)
    let schedule := steps 24 ++ told 0 .written ++ told 3 (.failed .abandoned) ++ steps 2
    ∃ report m, let r := (replay.follow (schedule ++ [.flushed ⟨2000000, 200⟩ (.ok ())])).1
      r.result? = some (.ok report) ∧ r.metrics = some m ∧
      m.dispatched = 2 ∧ m.failures = 1 ∧ m.watermarksEmitted = 3 ∧ m.outstanding = 0 := by
  intro plan source replay steps told schedule
  have hsource : (EventSource.next source).answer = .ok (some ⟨10, "a", []⟩) := rfl
  have hstage : (replay.follow schedule).1.stage = .flushing := stage_of_waitsForFlush (by decide +kernel)
  obtain ⟨-, hended⟩ := result?_flushed hstage ⟨2000000, 200⟩
  rw [← follow_concat] at hended
  obtain ⟨m, markers, hm, -, hdispatched, hfailures, ⟨hemitted, -⟩, hout, -⟩ :=
    metrics_agree hsource plan "s" 2 ⟨0, 100⟩ _ _ hended
  have htally : (replay.follow schedule).1.tally.dispatched = 2 ∧
      (replay.follow schedule).1.tally.failed = 1 ∧ (replay.follow schedule).1.tracker.emitted = 3 := by
    decide +kernel
  simp only [report, htally] at hdispatched hfailures hemitted
  refine ⟨_, m, hended, ?_, hdispatched, hfailures, hemitted, hout⟩
  with_reducible exact hm

end Replay

end EventReplay
