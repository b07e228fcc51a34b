import EventReplay.Proofs.Supply

/-!
# What a replay tells the world

The effects of a transition, seen by the sink: an event that is handed over, a marker that is broadcast,
and the request to flush (`Replay.Transition.forSink`). A marker carries the watermark that the step
settles, and so does a progress line (`Replay.Transition.progress`).
-/

set_option autoImplicit false

namespace EventReplay

namespace Replay

variable {σ : Type} {r r' : Replay σ} {ds : List Dispatch}

/-! ## What the sink sees -/

theorem filter_isForSink_of_isFailure {effects : List Effect}
    (h : ∀ effect ∈ effects, effect.IsFailure) : effects.filter Effect.isForSink = [] := by
  rw [List.filter_eq_nil_iff]
  intro effect heffect
  cases h effect heffect <;> simp [Effect.isForSink]

theorem filter_isForSink_notices (notices : List Notice) :
    (notices.map Effect.notice).filter Effect.isForSink = [] := by
  rw [List.filter_eq_nil_iff]
  intro effect heffect
  obtain ⟨notice, -, rfl⟩ := List.mem_map.mp heffect
  simp [Effect.isForSink]

theorem filter_isForSink_broadcasts (first : Nat) (stream : String) (ws : List Watermark) :
    (ws.map fun w => Effect.broadcast first stream (encodeWatermark w)).filter Effect.isForSink =
      ws.map fun w => Effect.broadcast first stream (encodeWatermark w) := by
  rw [List.filter_eq_self]
  intro effect heffect
  obtain ⟨w, -, rfl⟩ := List.mem_map.mp heffect
  rfl

/-- Whatever is seen of effects for the sink only is seen of all effects. -/
theorem filterMap_isForSink {α : Type} {f : Effect → Option α}
    (hf : ∀ effect, effect.isForSink = false → f effect = none) (effects : List Effect) :
    (effects.filter Effect.isForSink).filterMap f = effects.filterMap f := by
  rw [List.filterMap_filter]
  congr 1
  funext effect
  cases hsink : effect.isForSink with
  | true => rfl
  | false => simp [hf effect hsink]

variable [EventSource σ]

/-- At its start a replay asks nothing of the sink. -/
theorem forSink_ofSource (plan : ReplayPlan) (metrics : Option ReplayMetrics) (shards : Nat)
    (start : Moment) (source : σ) :
    (ofSource plan metrics shards start source).2.filter Effect.isForSink = [] := by
  unfold ofSource
  dsimp only
  split
  · exact filter_isForSink_notices _
  · rw [List.filter_append, filter_isForSink_notices]
    rfl
  · rw [List.filter_append, filter_isForSink_notices]
    rfl

/-- What an action asks of the sink. -/
theorem Transition.forSink {action : ReplayAction} {effects : List Effect}
    (ht : Transition r action r' effects) :
    effects.filter Effect.isForSink =
      (r.hands action).toList.map (fun d => Effect.dispatch d.handle (r.delivery d)) ++
      (r.emits action).toList.map (fun w =>
        Effect.broadcast r.nextHandle r.plan.stream (encodeWatermark w)) ++
      if r.asksFlush action then [Effect.flush] else [] := by
  -- a silent action asks for nothing
  have hquiet (hsilent : Silent r action) :
      (r.hands action).toList.map (fun d => Effect.dispatch d.handle (r.delivery d)) ++
      (r.emits action).toList.map (fun w =>
        Effect.broadcast r.nextHandle r.plan.stream (encodeWatermark w)) ++
      (if r.asksFlush action then [Effect.flush] else []) = [] := by
    rw [hsilent.hands, hsilent.emits, hsilent.asksFlush]
    rfl
  cases ht with
  | rest hsilent heq htold =>
      rw [hquiet hsilent, htold]
      rfl
  | turn hsilent hturn htold =>
      rw [hquiet hsilent]
      exact filter_isForSink_of_isFailure htold
  | move gate tally lag statistics metrics nextTicket stage hsilent hgoes heq hserves hpermits hfailed
      hleftOut hcounted htold =>
      rw [hquiet hsilent, List.filter_eq_nil_iff]
      intro effect heffect
      obtain ⟨wait, rfl⟩ := htold effect heffect
      simp [Effect.isForSink]
  | hand moment event hproduce hstage heq htold =>
      rw [hproduce, htold]
      simp only [hands, emits, asksFlush, hstage]
      rfl
  | track moment event handle outbound hproduce hstage heq htold =>
      rw [hproduce, htold]
      simp only [hands, emits, asksFlush, hstage]
      rfl
  | pull stage' hsilent hstage hanswer heq htold =>
      rw [hquiet hsilent, htold, filter_isForSink_notices]
  | observe moment next tracker marked hproduce hstage hemission hmarked heq htold =>
      have hhands : r.hands action = none := by
        rw [hproduce]
        simp only [hands, hstage]
      have hflush : r.asksFlush action = false := by
        rw [hproduce]
        simp only [asksFlush, hstage]
      rw [htold, hhands, hflush, filter_isForSink_broadcasts]
      exact (List.append_nil _).symm
  | report moment next now horizon gate statistics metrics nextTicket stage' line notices hproduce hstage
      hgoes heq hserves hout htold =>
      rw [hproduce, htold, List.filter_append, filter_isForSink_notices]
      simp only [hands, emits, asksFlush, hstage]
      cases line <;> rfl
  | drain ticket hsilent hstage hready heq htold =>
      rw [hquiet hsilent, htold]
      rfl
  | close moment tracker marked hproduce hstage hemission hmarked heq htold =>
      have hhands : r.hands action = none := by
        rw [hproduce]
        simp only [hands, hstage]
      have hflush : r.asksFlush action = true := by
        rw [hproduce]
        simp only [asksFlush, hstage]
      rw [htold, hhands, hflush, List.filter_append, filter_isForSink_broadcasts]
      rfl
  | finish moment metrics hsilent hflushed hstage heq htold =>
      rw [hquiet hsilent, htold]
      rfl

theorem Balanced.forSink_act (hb : Balanced r ds) (action : ReplayAction) :
    (r.act action).2.filter Effect.isForSink =
      (r.hands action).toList.map (fun d => Effect.dispatch d.handle (r.delivery d)) ++
      (r.emits action).toList.map (fun w =>
        Effect.broadcast r.nextHandle r.plan.stream (encodeWatermark w)) ++
      if r.asksFlush action then [Effect.flush] else [] :=
  (hb.transition action).forSink

/-! ## Watermarks in markers and progress lines -/

omit [EventSource σ] in
/-- A marker is made of the value that is settled, at the moment at which it is. -/
theorem emits_eq (r : Replay σ) (action : ReplayAction) {w : Watermark} (h : r.emits action = some w) :
    r.settles action = some w.value ∧ ∃ moment, action = .produce moment ∧ w.emittedAt = moment.now := by
  have hmarked : ∀ {tracker : Tracker} {now : Int} {settled : Option Int},
      Tracker.Emission r.tracker tracker now settled (some w) →
      settled = some w.value ∧ w.emittedAt = now := by
    intro tracker now settled he
    have hw := he.marked
    split at hw
    · obtain ⟨value, hvalue, heq⟩ := Option.map_eq_some_iff.mp hw.symm
      exact ⟨by rw [hvalue, ← heq], by rw [← heq]⟩
    · simp at hw
  cases action with
  | produce moment =>
      simp only [emits] at h
      split at h
      · rename_i next hstage
        have he := r.tracker.maybeEmit_spec moment.now
          (next.map fun event => r.outbound event moment.now)
        rw [h] at he
        obtain ⟨hsettled, hnow⟩ := hmarked he
        exact ⟨by simpa only [settles, hstage] using hsettled, moment, rfl, hnow⟩
      · rename_i hstage
        have he := r.tracker.emitNow_spec moment.now none
        rw [h] at he
        obtain ⟨hsettled, hnow⟩ := hmarked he
        exact ⟨by simpa only [settles, hstage] using hsettled, moment, rfl, hnow⟩
      · simp at h
  | _ => simp [emits] at h

/-- What is broadcast is a marker of the value that is settled. -/
theorem Balanced.broadcast_act (hb : Balanced r ds) {action : ReplayAction} {first : Nat}
    {stream : String} {payload : Bytes} (h : .broadcast first stream payload ∈ (r.act action).2) :
    ∃ w now, r.settles action = some w ∧ payload = encodeWatermark ⟨w, now⟩ := by
  have hmem : Effect.broadcast first stream payload ∈ (r.act action).2.filter Effect.isForSink :=
    List.mem_filter.mpr ⟨h, rfl⟩
  rw [hb.forSink_act] at hmem
  simp only [List.mem_append, List.mem_map, Option.mem_toList, reduceCtorEq, and_false, exists_false,
    Effect.broadcast.injEq, false_or] at hmem
  rcases hmem with ⟨w, hw, -, -, hpayload⟩ | hflush
  · exact ⟨w.value, w.emittedAt, (emits_eq r action hw).1, hpayload.symm⟩
  · split at hflush <;> simp at hflush

/-- A progress line shows the value that is settled, unless the source made it up. -/
theorem Transition.progress {action : ReplayAction} {effects : List Effect}
    (ht : Transition r action r' effects) {text : String} (h : .notice (.progress text) ∈ effects) :
    .progress text ∈ (EventSource.next r.source).notices ∨
    ∃ statistics lag, text = Statistics.line statistics (r.settles action) lag := by
  cases ht with
  | rest hsilent heq htold => simp [htold] at h
  | turn hsilent hturn htold => cases htold _ h
  | move gate tally lag statistics metrics nextTicket stage hsilent hgoes heq hserves hpermits hfailed
      hleftOut hcounted htold =>
      obtain ⟨wait, hwait⟩ := htold _ h
      simp at hwait
  | hand moment event hproduce hstage heq htold => simp [htold] at h
  | track moment event handle outbound hproduce hstage heq htold => simp [htold] at h
  | pull stage' hsilent hstage hanswer heq htold =>
      rw [htold] at h
      obtain ⟨notice, hnotice, heq⟩ := List.mem_map.mp h
      obtain rfl := Effect.notice.inj heq
      exact .inl hnotice
  | observe moment next tracker marked hproduce hstage hemission hmarked heq htold => simp [htold] at h
  | report moment next now horizon gate statistics metrics nextTicket stage' line notices hproduce hstage
      hgoes heq hserves hout htold hshows hothers =>
      rw [htold] at h
      rcases List.mem_append.mp h with h | h
      · obtain ⟨text', hline, heq⟩ := Option.map_eq_some_iff.mp (Option.mem_toList.mp h)
        obtain rfl : text' = text := by simpa using heq
        exact .inr (hshows text' hline)
      · obtain ⟨notice, hnotice, heq⟩ := List.mem_map.mp h
        obtain rfl := Effect.notice.inj heq
        exact absurd hnotice (hothers text)
  | drain ticket hsilent hstage hready heq htold => simp [htold] at h
  | close moment tracker marked hproduce hstage hemission hmarked heq htold => simp [htold] at h
  | finish moment metrics hsilent hflushed hstage heq htold => simp [htold] at h

theorem Balanced.progress_act (hb : Balanced r ds) {action : ReplayAction} {text : String}
    (h : .notice (.progress text) ∈ (r.act action).2) :
    .progress text ∈ (EventSource.next r.source).notices ∨
    ∃ statistics lag, text = Statistics.line statistics (r.settles action) lag :=
  (hb.transition action).progress h

end Replay

end EventReplay
