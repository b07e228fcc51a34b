import EventReplay.Proofs.Ending

/-!
# The records of a replay

The records that a replay sends to its stream, in the order in which it sends them: an event to the
shard of its key, a marker to all shards. No event is sent behind a marker that it is not later than
(`Replay.Ordered.records`), the tracker counts the markers (`Replay.Balanced.emitted_follow`), and the
last record of a replay that has come to its end is the last marker (`Replay.Balanced.getLast_records`).
-/

set_option autoImplicit false

namespace EventReplay

/-- A record of a stream. -/
inductive StreamRecord where
  | event (d : Dispatch)
  | marker (w : Watermark)

namespace StreamRecord

/-- The bytes of a record. -/
def bytes : StreamRecord → Bytes
  | event d => encodeEvent d.outbound d.event
  | marker w => encodeWatermark w

/-- Whether a record goes to a shard among others. -/
def isFor (shards n : Nat) : StreamRecord → Bool
  | event d => shardOf d.event.key shards = n
  | marker _ => true

/-- The event of a record. -/
def dispatch? : StreamRecord → Option Dispatch
  | event d => some d
  | marker _ => none

/-- The marker of a record. -/
def marker? : StreamRecord → Option Watermark
  | event _ => none
  | marker w => some w

/-- Behind a marker there is no marker of an earlier value, and no event that is not later. -/
def InOrder : StreamRecord → StreamRecord → Prop
  | marker v, marker w => v.value ≤ w.value
  | marker v, event d => v.value < d.outbound
  | event _, _ => True

end StreamRecord

theorem Hook.emitted_onTracker (hook : Hook) (tracker : Tracker) :
    (hook.onTracker tracker).emitted = tracker.emitted := by
  cases hook with
  | settle outbound =>
      simp only [Hook.onTracker, Tracker.complete]
      split <;> rfl
  | _ => rfl

namespace Replay

variable {σ : Type} [EventSource σ] {r r' : Replay σ} {ds handed : List Dispatch}

/-- The records that an action sends. -/
def sends (r : Replay σ) (action : ReplayAction) : List StreamRecord :=
  (r.hands action).toList.map .event ++ (r.emits action).toList.map .marker

omit [EventSource σ] in
theorem Silent.sends {action : ReplayAction} (h : Silent r action) : r.sends action = [] := by
  simp only [Replay.sends, h.hands, h.emits]
  rfl

/-- The records that a schedule sends, in order. -/
def records (r : Replay σ) : List ReplayAction → List StreamRecord
  | [] => []
  | action :: actions => r.sends action ++ (r.act action).1.records actions

theorem records_append (r : Replay σ) (before after : List ReplayAction) :
    r.records (before ++ after) = r.records before ++ (r.follow before).1.records after := by
  induction before generalizing r with
  | nil => rfl
  | cons action actions ih => simp only [List.cons_append, records, follow, ih, List.append_assoc]

theorem records_concat (r : Replay σ) (actions : List ReplayAction) (action : ReplayAction) :
    r.records (actions ++ [action]) = r.records actions ++ (r.follow actions).1.sends action := by
  rw [records_append]
  simp [records]

/-! ## Events and markers among the records -/

omit [EventSource σ] in
theorem filterMap_dispatch?_sends (r : Replay σ) (action : ReplayAction) :
    (r.sends action).filterMap StreamRecord.dispatch? = (r.hands action).toList := by
  cases hhands : r.hands action <;> cases hemits : r.emits action <;>
    simp [sends, hhands, hemits, StreamRecord.dispatch?]

omit [EventSource σ] in
theorem filterMap_marker?_sends (r : Replay σ) (action : ReplayAction) :
    (r.sends action).filterMap StreamRecord.marker? = (r.emits action).toList := by
  cases hhands : r.hands action <;> cases hemits : r.emits action <;>
    simp [sends, hhands, hemits, List.filterMap_cons, StreamRecord.marker?]

/-- The events among the records are those that are handed over. -/
theorem filterMap_dispatch?_records (r : Replay σ) (actions : List ReplayAction) :
    (r.records actions).filterMap StreamRecord.dispatch? = r.dispatches actions := by
  induction actions generalizing r with
  | nil => rfl
  | cons action actions ih =>
      rw [records, List.filterMap_append, filterMap_dispatch?_sends, ih]
      rfl

omit [EventSource σ] in
theorem Turn.emitted (ht : Turn r r') : r'.tracker.emitted = r.tracker.emitted := by
  cases ht with
  | quiet completions tellings stage heq => subst heq; rfl
  | ran tellings stage handle outcome hook hooks heq =>
      rw [runHook_eq] at heq
      subst heq
      exact hook.emitted_onTracker _

theorem Transition.emitted {action : ReplayAction} {effects : List Effect}
    (ht : Transition r action r' effects) :
    r'.tracker.emitted = r.tracker.emitted + (r.emits action).toList.length := by
  cases ht with
  | rest hsilent heq => simp [heq, hsilent.emits]
  | turn hsilent hturn => simp [hturn.emitted, hsilent.emits]
  | move gate tally lag statistics metrics nextTicket stage hsilent hgoes heq =>
      simp [heq, hsilent.emits]
  -- a marker is counted when it is made
  | observe moment next tracker marked hproduce hstage hemission hmarked heq =>
      rw [heq, ← hemission.emitted]
      exact congrArg Tracker.emitted hmarked.tracker
  | close moment tracker marked hproduce hstage hemission hmarked heq =>
      rw [heq, ← hemission.emitted]
      exact congrArg Tracker.emitted hmarked.tracker
  -- nothing else settles a value for a marker
  | hand moment event hproduce hstage heq => simp [heq, hproduce, emits, hstage, openHandles]
  | track moment event handle outbound hproduce hstage heq =>
      simp [heq, hproduce, emits, hstage, Tracker.track]
  | pull stage' hsilent hstage hanswer heq => simp [heq, hsilent.emits]
  | report moment next now horizon gate statistics metrics nextTicket stage' line notices hproduce hstage
      hgoes heq => simp [heq, hproduce, emits, hstage, Tracker.settle]
  | drain ticket hsilent hstage hready heq => simp [heq, hsilent.emits]
  | finish moment metrics hsilent hflushed hstage heq => simp [heq, hsilent.emits]

/-- The tracker counts the markers. -/
theorem Balanced.emitted_act (hb : Balanced r ds) (action : ReplayAction) :
    (r.act action).1.tracker.emitted = r.tracker.emitted + (r.emits action).toList.length :=
  (hb.transition action).emitted

theorem Balanced.emitted_follow (hb : Balanced r ds) (actions : List ReplayAction) :
    (r.follow actions).1.tracker.emitted =
      r.tracker.emitted + ((r.records actions).filterMap StreamRecord.marker?).length := by
  induction actions generalizing r ds with
  | nil => rfl
  | cons action actions ih =>
      have hact := hb.emitted_act action
      have hrest := ih (hb.act action)
      have hmarkers : ((r.records (action :: actions)).filterMap StreamRecord.marker?).length =
          (r.emits action).toList.length +
            (((r.act action).1.records actions).filterMap StreamRecord.marker?).length := by
        rw [records, List.filterMap_append, filterMap_marker?_sends, List.length_append]
      simp only [Replay.follow]
      omega

/-! ## The order of the records -/

/-- No marker goes back behind the watermark that was settled last. -/
theorem Balanced.le_of_marker_mem (hb : Balanced r ds) (actions : List ReplayAction) {c : Int}
    (hc : r.tracker.current = some c) :
    ∀ w, .marker w ∈ r.records actions → c ≤ w.value := by
  induction actions generalizing r ds c with
  | nil => simp [records]
  | cons action actions ih =>
      intro w hw
      rcases List.mem_append.mp hw with hw | hw
      · have hemits : r.emits action = some w := by simpa [sends] using hw
        exact (hb.settles_act (emits_eq r action hemits).1).2.2.2 c hc
      · obtain ⟨c', hc', hle⟩ := hb.current_act action hc
        exact hle.trans (ih (hb.act action) hc' w hw)

/-- While events come in the order of their times and clocks do not run backwards, the records are in
order. -/
theorem Ordered.records {events : List Event} {now : Int} (hb : Balanced r ds)
    (hs : Supplied r events handed) (h : Ordered r (events.drop handed.length) now)
    (actions : List ReplayAction) (hclock : (now :: readings actions).Pairwise (· ≤ ·))
    (hmin : ∀ d ∈ r.dispatches actions, Millis.earliest < d.outbound) :
    (r.records actions).Pairwise StreamRecord.InOrder := by
  induction actions generalizing r ds handed now with
  | nil => exact .nil
  | cons action actions ih =>
      obtain ⟨hnow, hclock'⟩ := readings_cons hclock
      have hmin' : ∀ d ∈ (r.act action).1.dispatches actions, Millis.earliest < d.outbound :=
        fun d hd => hmin d (List.mem_append_right _ hd)
      have ho := h.act hb hs action hnow
      have hbalanced := hb.act action
      have hsupplied := hs.act hb action
      refine List.pairwise_append.mpr ⟨?_, ih hbalanced hsupplied ho hclock' hmin', ?_⟩
      -- a step sends an event or a marker, and where it sends both the event goes first
      · cases hhands : r.hands action <;> cases hemits : r.emits action <;>
          simp [sends, hhands, hemits, StreamRecord.InOrder]
      · intro record hrecord later hlater
        cases record with
        | event d => trivial
        | marker v =>
            have hemits : r.emits action = some v := by simpa [sends] using hrecord
            have hcurrent := (hb.settles_act (emits_eq r action hemits).1).1
            cases later with
            | marker w => exact hbalanced.le_of_marker_mem actions hcurrent w hlater
            | event d =>
                have hd : d ∈ (r.act action).1.dispatches actions := by
                  rw [← filterMap_dispatch?_records]
                  exact List.mem_filterMap.mpr ⟨_, hlater, rfl⟩
                exact ho.dispatches_above hbalanced hsupplied actions hclock' hcurrent d hd
                  (hmin' d hd)

/-! ## The last record -/

/-- A replay that waits for the flush has sent a marker of the last watermark, if it makes markers at
all, and nothing behind it. -/
theorem Balanced.getLast_records (hb : Balanced r ds) (hstart : r.stage ≠ .flushing)
    (actions : List ReplayAction) (h : (r.follow actions).1.stage = .flushing)
    (henabled : r.tracker.config.enabled = true) {c : Int}
    (hc : (r.follow actions).1.tracker.current = some c) :
    ∃ w, (r.records actions).getLast? = some (.marker w) ∧ w.value = c := by
  induction actions using List.reverseRecOn with
  | nil => exact absurd h hstart
  | append_singleton actions action ih =>
      have hbalanced := hb.follow actions
      rw [follow_concat] at h hc
      rw [records_concat]
      cases hbalanced.entry action with
      -- nothing is sent while the flush is waited for
      | stay hstage =>
          have hflushing := hstage.symm.trans h
          have hsilent := silent_of_isFinal (by rw [hflushing]; rfl) action
          rw [hbalanced.current_of_settles_none hsilent.settles] at hc
          obtain ⟨w, hlast, hw⟩ := ih hflushing hc
          refine ⟨w, ?_, hw⟩
          rw [hsilent.sends, List.append_nil]
          exact hlast
      | goOn hisLast => simp [h, Stage.isLast] at hisLast
      | closing ticket hstage hready hstage' => simp [h] at hstage'
      | flushing moment hstage hproduce =>
          subst hproduce
          have he := (r.follow actions).1.tracker.emitNow_spec moment.now none
          have hsettled : (r.follow actions).1.settles (.produce moment) =
              ((r.follow actions).1.tracker.settle none).1 := by simp only [settles, hstage]
          have hconfig := (hb.fixed_follow actions).config
          -- with no horizon the watermark that is settled is the current one, if there is any
          have hcurrent : ((r.follow actions).1.tracker.settle none).1 = some c := by
            cases hsettle : ((r.follow actions).1.tracker.settle none).1 with
            | none =>
                rw [hbalanced.current_of_settles_none (hsettled.trans hsettle),
                  (Tracker.settle_none hsettle).1] at hc
                simp at hc
            | some v => rw [← (hbalanced.settles_act (hsettled.trans hsettle)).1, hc]
          have hemits : (r.follow actions).1.emits (.produce moment) = some ⟨c, moment.now⟩ := by
            simp only [emits, hstage, he.marked, hconfig, henabled, hcurrent]
            rfl
          exact ⟨⟨c, moment.now⟩, by simp [sends, hemits], rfl⟩
      | ended moment hstage hflushed hstage' => simp [h] at hstage'

/-- A replay that has ended with a report has waited for the flush before, and has sent nothing since. -/
theorem Balanced.ended_split (hb : Balanced r ds) (hstart : ∀ report, r.stage ≠ .ended (.ok report))
    (actions : List ReplayAction) {report : ReplayReport}
    (h : (r.follow actions).1.stage = .ended (.ok report)) :
    ∃ before moment after, actions = before ++ .flushed moment (.ok ()) :: after ∧
      (r.follow before).1.stage = .flushing ∧
      report = (r.follow before).1.report moment.elapsed ∧ r.records actions = r.records before := by
  induction actions using List.reverseRecOn with
  | nil => exact absurd h (hstart report)
  | append_singleton actions action ih =>
      have hbalanced := hb.follow actions
      rw [follow_concat] at h
      rw [records_concat]
      cases hbalanced.entry action with
      | stay hstage =>
          have hended := hstage.symm.trans h
          obtain ⟨before, moment, after, rfl, hflushing, hreport, hrecords⟩ := ih hended
          have hsilent := silent_of_isFinal (by rw [hended]; rfl) action
          exact ⟨before, moment, after ++ [action], by simp, hflushing, hreport,
            by rw [hsilent.sends, List.append_nil, hrecords]⟩
      | goOn _ hnot => exact absurd h (hnot report)
      | closing _ _ _ hstage' => simp [hstage'] at h
      | flushing _ _ _ hstage' => simp [hstage'] at h
      | ended moment hstage haction hstage' =>
          have hsilent := silent_of_isFinal (by rw [hstage]; rfl) action
          have hreport : report = (r.follow actions).1.report moment.elapsed := by
            simpa using h.symm.trans hstage'
          exact ⟨actions, moment, [], by rw [haction], hstage, hreport,
            by rw [hsilent.sends, List.append_nil]⟩

end Replay

end EventReplay
