import Mathlib.Data.List.Induction
import EventReplay.Proofs.WatermarkSafety

/-!
# How a replay ends well

A replay comes to its last marker when the gate has got all its units back, and then every event has
an outcome, all hooks on it have run, and the tracker holds nothing (`Replay.Balanced.drained`). So the
last watermark is the greatest outbound time, the failures are all counted, and the report, which is
made once the sink has been flushed, says so.
-/

set_option autoImplicit false

namespace EventReplay

theorem AdaptTime.inRange_outbound (policy : AdaptTime) (start origin : Int) {t now : Int}
    (ht : Millis.InRange t) (hnow : Millis.InRange now) :
    Millis.InRange (policy.outbound start origin t now) := by
  cases policy with
  | unchanged => exact ht
  | invocation => exact Millis.inRange_clamp _
  | ingestion => exact hnow

namespace Replay

variable {σ : Type} [EventSource σ] {r : Replay σ} {ds : List Dispatch}

/-- How a step gets a replay to its last stages. -/
inductive Entry (r : Replay σ) (action : ReplayAction) (r' : Replay σ) : Prop where
  | stay (stage : r'.stage = r.stage) (outstanding : r'.gate.outstanding ≤ r.gate.outstanding)
  | goOn (isLast : r'.stage.isLast = false) (ended : ∀ report, r'.stage ≠ .ended (.ok report))
  | closing (ticket : Nat) (stage : r.stage = .draining ticket) (ready : r.gate.isReady ticket = true)
      (stage' : r'.stage = .closing) (outstanding : r'.gate.outstanding = r.gate.outstanding)
  | flushing (moment : Moment) (stage : r.stage = .closing) (produce : action = .produce moment)
      (stage' : r'.stage = .flushing) (outstanding : r'.gate.outstanding = r.gate.outstanding)
  | ended (moment : Moment) (stage : r.stage = .flushing) (flushed : action = .flushed moment (.ok ()))
      (stage' : r'.stage = .ended (.ok (r.report moment.elapsed)))

omit [EventSource σ] in
theorem Hook.outstanding_onGate (hook : Hook) (gate : Gate) :
    (hook.onGate gate).outstanding ≤ gate.outstanding := by
  cases hook with
  | release => exact Nat.sub_le ..
  | _ => exact Nat.le_refl _

theorem Stage.Registers.same_or_hooking {stage stage' : Stage} (h : Stage.Registers stage stage') :
    stage' = stage ∨ ∃ event handle hooks, stage' = .hooking event handle hooks := by
  cases h with
  | none => exact .inl rfl
  | one event handle hook hooks => exact .inr ⟨event, handle, hooks, rfl⟩

omit [EventSource σ] in
theorem Turn.outstanding_le {r' : Replay σ} (ht : Turn r r') :
    r'.gate.outstanding ≤ r.gate.outstanding := by
  cases ht with
  | quiet completions tellings stage heq => exact heq ▸ Nat.le_refl _
  | ran tellings stage handle outcome hook hooks heq =>
      rw [heq, runHook_eq]
      exact Hook.outstanding_onGate ..

omit [EventSource σ] in
theorem Turn.entry {r' : Replay σ} (ht : Turn r r') (action : ReplayAction) : Entry r action r' := by
  rcases ht.registers.same_or_hooking with hsame | ⟨event, handle, hooks, hhooking⟩
  · exact .stay hsame ht.outstanding_le
  · exact .goOn (by rw [hhooking]; rfl) (by rw [hhooking]; rintro _ ⟨⟩)

theorem Transition.entry {r' : Replay σ} {action : ReplayAction} {effects : List Effect}
    (ht : Transition r action r' effects) : Entry r action r' := by
  cases ht with
  | rest hsilent heq =>
      subst heq
      exact .stay rfl (Nat.le_refl _)
  | turn hsilent hturn => exact hturn.entry action
  | move gate tally lag statistics metrics nextTicket stage hsilent hgoes heq =>
      subst heq
      exact .goOn hgoes.isLast hgoes.ne_ended
  | pull stage' hsilent hstage hanswer heq =>
      subst heq
      rcases hanswer with ⟨next, -, rfl⟩ | ⟨fault, -, rfl⟩
      · exact .goOn rfl (by rintro _ ⟨⟩)
      · exact .goOn rfl (by rintro _ ⟨⟩)
  | report moment next now horizon gate statistics metrics nextTicket stage' line notices hproduce hstage
      hgoes heq =>
      subst heq
      rcases hgoes with ⟨event, -, rfl⟩ | ⟨-, ticket, rfl⟩
      · exact .goOn rfl (by rintro _ ⟨⟩)
      · exact .goOn rfl (by rintro _ ⟨⟩)
  | drain ticket hsilent hstage hready heq =>
      subst heq
      exact .closing ticket hstage hready rfl rfl
  | close moment tracker marked hproduce hstage hemission hmarked heq =>
      have hgate : r'.gate = r.gate := by
        rw [heq]
        exact hmarked.gate
      exact .flushing moment hstage hproduce (by rw [heq]) (by rw [hgate])
  | finish moment metrics hsilent hflushed hstage heq =>
      subst heq
      exact .ended moment hstage hflushed rfl
  -- an event is handed over or tracked, or the next one is looked at
  | hand _ _ _ _ heq | track _ _ _ _ _ _ heq | observe _ _ _ _ _ _ _ _ heq =>
      subst heq
      exact .goOn rfl (by rintro _ ⟨⟩)

theorem Balanced.entry (hb : Balanced r ds) (action : ReplayAction) :
    Entry r action (r.act action).1 :=
  (hb.transition action).entry

/-! ## A drained gate -/

/-- From the drain of the gate on, no permit is out. -/
def Drained (r : Replay σ) : Prop := r.stage.isLast = true → r.gate.outstanding = 0

theorem Drained.act (hb : Balanced r ds) (h : Drained r) (action : ReplayAction) :
    Drained (r.act action).1 := by
  intro hlast
  cases hb.entry action with
  -- hooks that run give permits back and take none
  | stay hstage hout =>
      have := h (hstage ▸ hlast)
      omega
  | goOn hisLast => simp [hisLast] at hlast
  | closing ticket hstage hready hstage' hout =>
      have hserves := hb.serves
      rw [hstage] at hserves
      rw [hout]
      exact hserves.outstanding_eq_zero hready
  | flushing moment hstage hproduce hstage' hout =>
      rw [hout]
      exact h (by rw [hstage]; rfl)
  | ended moment hstage hflushed hstage' =>
      rw [hstage'] at hlast
      exact absurd hlast (by simp [Stage.isLast])

theorem Drained.follow (hb : Balanced r ds) (h : Drained r) (actions : List ReplayAction) :
    Drained (r.follow actions).1 := by
  induction actions generalizing r ds with
  | nil => exact h
  | cons action actions ih => exact ih (hb.act action) (h.act hb action)

omit [EventSource σ] in
/-- Once no permit is out, all events have their outcomes and all their hooks have run. -/
theorem Balanced.owed_eq_nil (hb : Balanced r ds) (hout : r.gate.outstanding = 0) :
    ∀ d ∈ ds, r.owed d.handle = [] := by
  obtain ⟨permits, hpermits, hbooks⟩ := hb.books
  have hzero : permits = 0 := by omega
  have hcount := hbooks.permits
  rw [hzero] at hcount
  intro d hd
  simpa using List.countP_eq_zero.mp hcount.symm d hd

omit [EventSource σ] in
theorem Balanced.drained (hb : Balanced r ds) (hout : r.gate.outstanding = 0) :
    (∀ d ∈ ds, (r.outcomeOf d.handle).isSome = true) ∧ r.tracker.Holds [] ∧
    r.tally.failed = (ds.countP fun d => (r.outcomeOf d.handle).any Outcome.isFailure) := by
  obtain ⟨permits, -, hbooks⟩ := hb.books
  have howed := hb.owed_eq_nil hout
  refine ⟨?_, ?_, ?_⟩
  · intro d hd
    rw [Option.isSome_iff_ne_none]
    intro hnone
    simpa [howed d hd, Dispatch.hooks] using hbooks.untold d hd hnone
  · have hnone : (ds.filter fun d => r.owed d.handle = d.hooks) = [] := by
      rw [List.filter_eq_nil_iff]
      intro d hd
      simp [howed d hd, Dispatch.hooks]
    have hholds := hbooks.holds
    rw [hnone] at hholds
    exact hholds
  · rw [hbooks.failures]
    apply List.countP_congr
    intro d hd
    simp [howed d hd]

/-! ## The last watermark -/

/-- No watermark is later than all events. -/
def Bounded (r : Replay σ) (ds : List Dispatch) : Prop :=
  ∀ w, r.tracker.current = some w → ∃ d ∈ ds, w ≤ d.outbound

theorem Bounded.act (hb : Balanced r ds) (hmin : ∀ d ∈ ds, Millis.earliest ≤ d.outbound)
    (h : Bounded r ds) (action : ReplayAction) :
    Bounded (r.act action).1 (ds ++ r.tracks action) := by
  obtain ⟨permits, -, hbooks⟩ := hb.books
  have hold : ∀ w, r.tracker.current = some w → ∃ d ∈ ds ++ r.tracks action, w ≤ d.outbound := by
    intro w hw
    obtain ⟨d, hd, hle⟩ := h w hw
    exact ⟨d, List.mem_append_left _ hd, hle⟩
  intro w hw
  cases hb.course action with
  | quiet _ _ _ _ _ hcurrent => exact hold w (hcurrent ▸ hw)
  | hand _ _ _ _ _ _ _ _ htracker => exact hold w (htracker ▸ hw)
  | pull _ _ _ _ _ htracker => exact hold w (htracker ▸ hw)
  | settle moment next horizon hproduce hstage hhands hsettles hsource hcoming hagain hcurrent =>
      rw [hcurrent] at hw
      cases hset : r.settles action with
      | none =>
          rw [hset] at hw
          exact hold w hw
      | some v =>
          rw [hset] at hw hsettles
          obtain rfl : v = w := by simpa using hw
          rcases hsettles with hnone | hsettles
          · simp at hnone
          obtain ⟨hcur | hcandidate, -⟩ := Tracker.settle_cases hsettles.symm
          · exact hold v hcur
          -- what a tracker allows is at most a time that it holds or one that it has let go
          · rcases hbooks.holds.candidate_cases hcandidate with
              ⟨least, hmem, -, rfl⟩ | ⟨-, completed, hcompleted, rfl⟩
            · obtain ⟨d, hd, rfl⟩ := List.mem_map.mp hmem
              have hd := List.mem_of_mem_filter hd
              exact ⟨d, List.mem_append_left _ hd, Millis.pred_le (hmin d hd)⟩
            · obtain ⟨d, hd, -, rfl⟩ := hbooks.completed_mem completed hcompleted
              refine ⟨d, List.mem_append_left _ hd, ?_⟩
              cases horizon with
              | none => exact Int.le_refl _
              | some next => exact Int.min_le_left ..

theorem Bounded.follow (hb : Balanced r ds) (h : Bounded r ds) (actions : List ReplayAction)
    (hmin : ∀ d ∈ ds ++ r.tracked actions, Millis.earliest ≤ d.outbound) :
    Bounded (r.follow actions).1 (ds ++ r.tracked actions) := by
  induction actions generalizing r ds with
  | nil => simpa [Replay.follow, tracked] using h
  | cons action actions ih =>
      simp only [Replay.follow, tracked, ← List.append_assoc] at hmin ⊢
      refine ih (hb.act action) (h.act hb ?_ action) hmin
      intro d hd
      exact hmin d (List.mem_append_left _ (List.mem_append_left _ hd))

omit [EventSource σ] in
/-- The watermark of the last marker is the greatest outbound time. -/
theorem Balanced.settle_closing (hb : Balanced r ds) (hne : ds ≠ []) (h : Bounded r ds)
    (hout : r.gate.outstanding = 0) :
    ∃ d ∈ ds, (r.tracker.settle none).1 = some d.outbound ∧ ∀ d' ∈ ds, d'.outbound ≤ d.outbound := by
  obtain ⟨permits, -, hbooks⟩ := hb.books
  have howed := hb.owed_eq_nil hout
  obtain ⟨-, hholds, -⟩ := hb.drained hout
  -- each event has been let go, so the greatest time let go is the greatest of all
  have hrun : ∀ d ∈ ds, r.owed d.handle ≠ d.hooks := by
    intro d hd
    simp [howed d hd, Dispatch.hooks]
  obtain ⟨d₀, hd₀⟩ := List.exists_mem_of_ne_nil ds hne
  obtain ⟨t, ht, -⟩ := hbooks.completed_le d₀ hd₀ (hrun d₀ hd₀)
  obtain ⟨d, hd, -, rfl⟩ := hbooks.completed_mem t ht
  have hmax : ∀ d' ∈ ds, d'.outbound ≤ d.outbound := by
    intro d' hd'
    obtain ⟨t', ht', hle⟩ := hbooks.completed_le d' hd' (hrun d' hd')
    obtain rfl := Option.some.inj (ht'.symm.trans ht)
    exact hle
  refine ⟨d, hd, ?_, hmax⟩
  simp only [Tracker.settle, hholds.candidate_none, ht]
  cases hcurrent : r.tracker.current with
  | none => rfl
  | some c =>
      obtain ⟨d', hd', hle⟩ := h c hcurrent
      exact congrArg some (Int.max_eq_right (hle.trans (hmax d' hd')))

/-! ## What is counted -/

theorem Stage.Registers.uncounted {stage stage' : Stage} (h : Stage.Registers stage stage') :
    stage'.uncounted = stage.uncounted := by
  cases h <;> rfl

omit [EventSource σ] in
theorem Turn.counted {r' : Replay σ} (ht : Turn r r') :
    r'.tally.dispatched + r'.tally.leftOut + r'.stage.uncounted =
      r.tally.dispatched + r.tally.leftOut + r.stage.uncounted := by
  rw [ht.registers.uncounted]
  cases ht with
  | quiet completions tellings stage heq => rw [heq]
  | ran tellings stage handle outcome hook hooks heq => rw [heq, runHook_eq]

theorem Transition.counted {r' : Replay σ} {action : ReplayAction} {effects : List Effect}
    (ht : Transition r action r' effects) :
    r'.tally.dispatched + r'.tally.leftOut + r'.stage.uncounted =
      r.tally.dispatched + r.tally.leftOut + r.stage.uncounted + (r.hands action).toList.length := by
  cases ht with
  | rest hsilent heq => simp [heq, hsilent.hands]
  | turn hsilent hturn => simp [hturn.counted, hsilent.hands]
  | move gate tally lag statistics metrics nextTicket stage hsilent hgoes heq hserves hpermits hfailed
      hleftOut hcounted => simp [heq, hsilent.hands, hcounted]
  | hand moment event hproduce hstage heq =>
      simp [heq, hproduce, hands, hstage, Stage.uncounted, openHandles]
  | track moment event handle outbound hproduce hstage heq =>
      simp [heq, hproduce, hands, hstage, Stage.uncounted]
  | pull stage' hsilent hstage hanswer heq =>
      rcases hanswer with ⟨next, -, rfl⟩ | ⟨fault, -, rfl⟩ <;>
        simp [heq, hsilent.hands, hstage, Stage.uncounted]
  | observe moment next tracker marked hproduce hstage hemission hmarked heq =>
      simp [heq, hproduce, hands, hstage, Stage.uncounted, hmarked.tally]
  | report moment next now horizon gate statistics metrics nextTicket stage' line notices hproduce hstage
      hgoes heq =>
      rcases hgoes with ⟨event, -, rfl⟩ | ⟨-, ticket, rfl⟩ <;>
        simp [heq, hproduce, hands, hstage, Stage.uncounted]
  | drain ticket hsilent hstage hready heq => simp [heq, hsilent.hands, hstage, Stage.uncounted]
  | close moment tracker marked hproduce hstage hemission hmarked heq =>
      simp [heq, hproduce, hands, hstage, Stage.uncounted, hmarked.tally]
  | finish moment metrics hsilent hflushed hstage heq =>
      simp [heq, hsilent.hands, hstage, Stage.uncounted]

theorem Balanced.counted_act (hb : Balanced r ds) (action : ReplayAction) :
    (r.act action).1.tally.dispatched + (r.act action).1.tally.leftOut +
        (r.act action).1.stage.uncounted =
      r.tally.dispatched + r.tally.leftOut + r.stage.uncounted + (r.hands action).toList.length :=
  (hb.transition action).counted

theorem Balanced.counted_follow (hb : Balanced r ds) (actions : List ReplayAction) :
    (r.follow actions).1.tally.dispatched + (r.follow actions).1.tally.leftOut +
        (r.follow actions).1.stage.uncounted =
      r.tally.dispatched + r.tally.leftOut + r.stage.uncounted + (r.dispatches actions).length := by
  induction actions generalizing r ds with
  | nil => rfl
  | cons action actions ih =>
      have hact := hb.counted_act action
      have hrest := ih (hb.act action)
      simp only [Replay.follow, dispatches, List.length_append]
      omega

/-- No step leaves an event out. -/
theorem Transition.leftOut {r' : Replay σ} {action : ReplayAction} {effects : List Effect}
    (ht : Transition r action r' effects) : r'.tally.leftOut = r.tally.leftOut := by
  cases ht with
  | turn hsilent hturn =>
      cases hturn with
      | quiet completions tellings stage heq => rw [heq]
      | ran tellings stage handle outcome hook hooks heq => rw [heq, runHook_eq]
  | move gate tally lag statistics metrics nextTicket stage hsilent hgoes heq hserves hpermits hfailed
      hleftOut => rw [heq]; exact hleftOut
  | observe moment next tracker marked hproduce hstage hemission hmarked heq
  | close moment tracker marked hproduce hstage hemission hmarked heq =>
      rw [heq]
      exact congrArg Tally.leftOut hmarked.tally
  | _ =>
      subst r'
      rfl

/-- An event that an action hands over has an outbound time that is a time. -/
theorem Supplied.inRange_hands {events : List Event} {handed : List Dispatch} (hb : Balanced r ds)
    (hs : Supplied r events handed) (hevents : ∀ e ∈ events, Millis.InRange e.timestamp)
    {action : ReplayAction} (hclock : ∀ n ∈ action.reading, Millis.InRange n) :
    ∀ d ∈ r.hands action, Millis.InRange d.outbound := by
  intro d hd
  cases hb.course action with
  | quiet hhands => simp [hhands] at hd
  | pull hhands => simp [hhands] at hd
  | settle _ _ _ _ _ hhands => simp [hhands] at hd
  | hand moment event hproduce hstage hhands =>
      subst hproduce
      obtain rfl : _ = d := by simpa [hhands] using hd
      obtain ⟨left, heq, -⟩ := hs
      have hmem : event ∈ events := by
        rw [heq, hstage]
        simp [Stage.coming]
      exact AdaptTime.inRange_outbound _ _ _ (hevents event hmem) (hclock moment.now rfl)

/-- Outbound times are times. -/
theorem Supplied.inRange_dispatches {events : List Event} {handed : List Dispatch}
    (hb : Balanced r ds) (hs : Supplied r events handed)
    (hevents : ∀ e ∈ events, Millis.InRange e.timestamp) (actions : List ReplayAction)
    (hclock : ∀ n ∈ readings actions, Millis.InRange n) :
    ∀ d ∈ r.dispatches actions, Millis.InRange d.outbound := by
  induction actions generalizing r ds handed with
  | nil => exact List.forall_mem_nil _
  | cons action actions ih =>
      intro d hd
      have hnow : ∀ n ∈ action.reading, Millis.InRange n := fun n hn =>
        hclock n (List.mem_filterMap.mpr ⟨action, .head _, hn⟩)
      have hlater : ∀ n ∈ readings actions, Millis.InRange n := by
        intro n hn
        obtain ⟨a, ha, hread⟩ := List.mem_filterMap.mp hn
        exact hclock n (List.mem_filterMap.mpr ⟨a, .tail _ ha, hread⟩)
      rcases List.mem_append.mp hd with hd | hd
      · exact hs.inRange_hands hb hevents hnow d (Option.mem_toList.mp hd)
      · exact ih (hb.act action) (hs.act hb action) hlater d hd

/-! ## From the last marker to the end -/

theorem follow_concat (r : Replay σ) (actions : List ReplayAction) (action : ReplayAction) :
    (r.follow (actions ++ [action])).1 = ((r.follow actions).1.act action).1 :=
  (r.follow_append actions [action]).1

theorem dispatches_concat (r : Replay σ) (actions : List ReplayAction) (action : ReplayAction) :
    r.dispatches (actions ++ [action]) =
      r.dispatches actions ++ ((r.follow actions).1.hands action).toList := by
  rw [dispatches_append]
  simp [dispatches]

/-- A replay that waits for the flush has made its last marker, and nothing has been handed over or
settled since. -/
theorem Balanced.flushing_split (hb : Balanced r ds) (hstart : r.stage ≠ .flushing)
    (actions : List ReplayAction) (h : (r.follow actions).1.stage = .flushing) :
    ∃ before moment middle, actions = before ++ .produce moment :: middle ∧
      (r.follow before).1.stage = .closing ∧ r.dispatches actions = r.dispatches before ∧
      (r.follow actions).1.tracker.current =
        ((r.follow before).1.act (.produce moment)).1.tracker.current := by
  induction actions using List.reverseRecOn with
  | nil => exact absurd h hstart
  | append_singleton actions action ih =>
      have hbalanced := hb.follow actions
      rw [follow_concat] at h
      cases hbalanced.entry action with
      | stay hstage =>
          have hflushing := hstage.symm.trans h
          obtain ⟨before, moment, middle, hactions, hclosing, hdispatches, hcurrent⟩ := ih hflushing
          have hsilent := silent_of_isFinal (by rw [hflushing]; rfl) action
          refine ⟨before, moment, middle ++ [action], by simp [hactions], hclosing, ?_, ?_⟩
          · rw [dispatches_concat, hsilent.hands, hdispatches]
            exact List.append_nil _
          · rw [follow_concat, hbalanced.current_of_settles_none hsilent.settles, hcurrent]
      | goOn hisLast => simp [h, Stage.isLast] at hisLast
      | closing ticket hstage hready hstage' => simp [h] at hstage'
      | flushing moment hstage hproduce =>
          refine ⟨actions, moment, [], by rw [hproduce], hstage, ?_, by rw [follow_concat, hproduce]⟩
          have hhands : (r.follow actions).1.hands action = none := by
            rw [hproduce]
            simp only [hands, hstage]
          rw [dispatches_concat, hhands]
          exact List.append_nil _
      | ended moment hstage hflushed hstage' => simp [h] at hstage'

/-- How a replay starts. -/
structure Starts (r : Replay σ) (plan : ReplayPlan) : Prop where
  flushing : r.stage ≠ .flushing
  untracked : r.stage.untracked = []
  isLast : r.stage.isLast = false
  current : r.tracker.current = none
  config : r.tracker.config = plan.watermark
  plan : r.plan = plan
  emitted : r.tracker.emitted = 0
  counted : r.tally.dispatched + r.tally.leftOut = 0
  uncounted : r.stage.uncounted = 0

theorem starts_ofSource (plan : ReplayPlan) (metrics : Option ReplayMetrics) (shards : Nat)
    (start : Moment) (source : σ) : Starts (ofSource plan metrics shards start source).1 plan := by
  unfold ofSource
  dsimp only
  split <;> exact ⟨(by simp), rfl, rfl, rfl, rfl, rfl, rfl, rfl, rfl⟩

omit [EventSource σ] in
theorem stage_of_result? {result : Except ReplayFault ReplayReport} (h : r.result? = some result) :
    r.stage = .ended result := by
  unfold result? at h
  split at h
  · rename_i result' hresult
    rw [hresult, Option.some.inj h]
  · simp at h

/-- A replay ends with a report when it learns that the sink has been flushed. -/
theorem Balanced.flushed_of_ended (hb : Balanced r ds) {action : ReplayAction} {report : ReplayReport}
    (hrunning : r.result? = none) (hended : (r.act action).1.result? = some (.ok report)) :
    ∃ moment, r.stage = .flushing ∧ action = .flushed moment (.ok ()) ∧
      report = r.report moment.elapsed := by
  cases hb.entry action with
  | stay hstage =>
      simp only [result?, hstage] at hended hrunning
      simp [hrunning] at hended
  | goOn hisLast hnot => exact absurd (stage_of_result? hended) (hnot report)
  | closing _ _ _ hstage' => simp [result?, hstage'] at hended
  | flushing _ _ _ hstage' => simp [result?, hstage'] at hended
  | ended moment hstage hflushed hstage' =>
      simp only [result?, hstage', Option.some.injEq, Except.ok.injEq] at hended
      exact ⟨moment, hstage, hflushed, hended.symm⟩

theorem Supplied.map_event_of_flushing {events : List Event} {handed : List Dispatch}
    (hs : Supplied r events handed) (h : r.stage = .flushing) : handed.map Dispatch.event = events := by
  obtain ⟨left, hevents, hleft⟩ := hs
  rw [h] at hevents hleft
  simp only [Stage.asksAgain, Bool.false_eq_true, if_false] at hleft
  simpa [hleft, Stage.coming] using hevents.symm

namespace Starts

variable {plan : ReplayPlan} (hstart : Starts r plan) (hb : Balanced r [])

include hstart hb

theorem balanced_dispatches (actions : List ReplayAction)
    (huntracked : (r.follow actions).1.stage.untracked = []) :
    r.tracked actions = r.dispatches actions ∧
    Balanced (r.follow actions).1 (r.dispatches actions) := by
  have hfollow := hb.untracked_follow actions
  rw [hstart.untracked, huntracked, List.append_nil] at hfollow
  have hbalanced := hb.follow actions
  rw [List.nil_append, hfollow.symm] at hbalanced
  exact ⟨hfollow.symm, hbalanced⟩

theorem outstanding_eq_zero (actions : List ReplayAction)
    (hlast : (r.follow actions).1.stage.isLast = true) : (r.follow actions).1.gate.outstanding = 0 := by
  have hdrained : Drained r := by
    intro hlast
    simp [hstart.isLast] at hlast
  exact hdrained.follow hb actions hlast

/-- The last marker of a replay that waits for the flush: everything had been handed over by then, and
its watermark is the greatest outbound time. -/
theorem last_marker {events : List Event} (hs : Supplied r events []) (hne : events ≠ [])
    (hevents : ∀ e ∈ events, Millis.InRange e.timestamp) (schedule : List ReplayAction)
    (hclock : ∀ n ∈ readings schedule, Millis.InRange n)
    (hflushing : (r.follow schedule).1.stage = .flushing) :
    ∃ before moment middle, ∃ d ∈ r.dispatches schedule,
      schedule = before ++ .produce moment :: middle ∧ (r.follow before).1.stage = .closing ∧
      r.dispatches before = r.dispatches schedule ∧
      (r.dispatches schedule).map Dispatch.event = events ∧
      ((r.follow before).1.tracker.settle none).1 = some d.outbound ∧
      (r.follow schedule).1.tracker.current = some d.outbound ∧
      ∀ d' ∈ r.dispatches schedule, d'.outbound ≤ d.outbound := by
  obtain ⟨before, moment, middle, hschedule, hclosing, hdispatches, hcurrent⟩ :=
    hb.flushing_split hstart.flushing schedule hflushing
  have hsupplied := (hs.follow hb schedule).map_event_of_flushing hflushing
  have hsome : r.dispatches before ≠ [] := by
    intro hnil
    exact hne (by rw [← hsupplied, List.nil_append, hdispatches, hnil]; rfl)
  obtain ⟨htracked, hclosed⟩ := hstart.balanced_dispatches hb before (by rw [hclosing]; rfl)
  have hrange := hs.inRange_dispatches hb hevents schedule hclock
  have hbounded : Bounded (r.follow before).1 (r.dispatches before) := by
    have hbounded : Bounded r [] := by
      intro w hw
      simp [hstart.current] at hw
    have hfollow := hbounded.follow hb before
    rw [List.nil_append, htracked] at hfollow
    exact hfollow fun d hd => (hrange d (hdispatches ▸ hd)).1
  obtain ⟨d, hd, hsettle, hmax⟩ := hclosed.settle_closing hsome hbounded
    (hstart.outstanding_eq_zero hb before (by rw [hclosing]; rfl))
  have hsettles : (r.follow before).1.settles (.produce moment) = some d.outbound := by
    simp only [settles, hclosing, hsettle]
  exact ⟨before, moment, middle, d, hdispatches ▸ hd, hschedule, hclosing, hdispatches.symm, hsupplied,
    hsettle, hcurrent.trans (hclosed.settles_act hsettles).1, hdispatches ▸ hmax⟩

end Starts

/-- A replay of some events that ends with a report. Its last marker was made when every event had an
outcome and the tracker held nothing, and carries the greatest outbound time of all events; the flush
was asked for after that, and has succeeded. The report has counted every event, and every failure. -/
theorem report_of_ended {source : σ} {events : List Event} (hyields : EventSource.Yields source events)
    (hne : events ≠ []) (hevents : ∀ e ∈ events, Millis.InRange e.timestamp) (plan : ReplayPlan)
    (metrics : Option ReplayMetrics) (shards : Nat) (start : Moment) (schedule : List ReplayAction)
    (hclock : ∀ n ∈ readings schedule, Millis.InRange n) (action : ReplayAction)
    (report : ReplayReport)
    (hrunning : ((ofSource plan metrics shards start source).1.follow schedule).1.result? = none)
    (hended : (((ofSource plan metrics shards start source).1.follow schedule).1.act action).1.result? =
      some (.ok report)) :
    let replay := (ofSource plan metrics shards start source).1
    let ds := replay.dispatches schedule
    ∃ before moment middle w, schedule = before ++ .produce moment :: middle ∧
      let r := (replay.follow before).1
      (replay.dispatches before = ds ∧ ds.map Dispatch.event = events) ∧
      ((∀ d ∈ ds, (r.outcomeOf d.handle).isSome = true) ∧ r.tracker.outstanding = []) ∧
      (r.act (.produce moment)).2.filter Effect.isForSink =
        (if plan.watermark.enabled then
          [.broadcast r.nextHandle plan.stream (encodeWatermark ⟨w, moment.now⟩)]
        else []) ++ [.flush] ∧
      (∃ moment', action = .flushed moment' (.ok ())) ∧
      report.lastWatermark = some w ∧ ((∃ d ∈ ds, d.outbound = w) ∧ ∀ d ∈ ds, d.outbound ≤ w) ∧
      report.failed = ds.countP (fun d =>
        ((replay.follow schedule).1.outcomeOf d.handle).any Outcome.isFailure) ∧
      report.dispatched + report.encodeErrors = events.length := by
  have hb₀ := balanced_ofSource plan metrics shards start source
  have hs₀ := supplied_ofSource hyields plan metrics shards start
  have hstart := starts_ofSource plan metrics shards start source
  generalize (ofSource plan metrics shards start source).1 = replay at *
  intro replay' ds
  show ∃ before moment middle w, schedule = before ++ .produce moment :: middle ∧ _
  subst replay'
  obtain ⟨moment', hflushing, hflushed, hreport⟩ :=
    (hb₀.follow schedule).flushed_of_ended hrunning hended
  obtain ⟨before, moment, middle, d, hd, hschedule, hclosing, hdispatches, hsupplied, hsettle, hlast,
    hmax⟩ := hstart.last_marker hb₀ hs₀ hne hevents schedule hclock hflushing
  -- the gate is drained when the last marker is made, and still when the flush is answered
  obtain ⟨-, hclosed⟩ := hstart.balanced_dispatches hb₀ before (by rw [hclosing]; rfl)
  rw [hdispatches] at hclosed
  obtain ⟨houtcomes, hholds, -⟩ :=
    hclosed.drained (hstart.outstanding_eq_zero hb₀ before (by rw [hclosing]; rfl))
  obtain ⟨-, hfinal⟩ := hstart.balanced_dispatches hb₀ schedule (by rw [hflushing]; rfl)
  obtain ⟨-, -, hfailed⟩ :=
    hfinal.drained (hstart.outstanding_eq_zero hb₀ schedule (by rw [hflushing]; rfl))
  have hfixed := hb₀.fixed_follow before
  have hconfig : (replay.follow before).1.tracker.config = plan.watermark := by
    rw [hfixed.config, hstart.config]
  have hplan : (replay.follow before).1.plan = plan := by
    rw [hfixed.plan, hstart.plan]
  have hcounted := hb₀.counted_follow schedule
  rw [hflushing, hstart.counted, hstart.uncounted] at hcounted
  refine ⟨before, moment, middle, d.outbound, hschedule, ⟨hdispatches, hsupplied⟩,
    ⟨houtcomes, hholds.outstanding_eq_nil⟩, ?_, ⟨moment', hflushed⟩, ?_, ⟨⟨d, hd, rfl⟩, hmax⟩, ?_, ?_⟩
  · have hmarked := ((replay.follow before).1.tracker.emitNow_spec moment.now none).marked
    rw [hclosed.forSink_act, hplan]
    simp only [hands, emits, asksFlush, hclosing, hmarked, hconfig, hsettle]
    cases plan.watermark.enabled <;> rfl
  · rw [hreport]
    exact hlast
  · rw [hreport]
    exact hfailed
  · rw [hreport, ← hsupplied, List.length_map]
    exact hcounted.trans (by simp)

theorem result?_flushed {r : Replay σ} (h : r.stage = .flushing) (moment : Moment) :
    r.result? = none ∧
    (r.act (.flushed moment (.ok ()))).1.result? = some (.ok (r.report moment.elapsed)) := by
  simp [result?, act, flushed, h, onMetrics]

/-- Whether the producer waits for the flush. -/
def waitsForFlush (r : Replay σ) : Bool :=
  match r.stage with
  | .flushing => true
  | _ => false

omit [EventSource σ] in
theorem stage_of_waitsForFlush {r : Replay σ} (h : r.waitsForFlush = true) : r.stage = .flushing := by
  unfold waitsForFlush at h
  split at h
  · assumption
  · simp at h

/-- Two events, of which the second fails after the first was written, replayed to the end. -/
theorem report_of_ended_two_events :
    let replay := (ofSource {} none 2 ⟨0, 100⟩ (EventQueue.mk [⟨10, "a", []⟩, ⟨20, "b", []⟩])).1
    let steps := fun n => List.replicate n (ReplayAction.produce ⟨1000000, 100⟩)
    let told := fun handle outcome =>
      ReplayAction.tell handle outcome :: List.replicate 4 (.continueTelling handle)
    let r := (replay.follow (steps 24 ++ told 0 .written ++ told 1 (.failed .abandoned) ++ steps 2)).1
    ∃ report, (r.act (.flushed ⟨2000000, 200⟩ (.ok ()))).1.result? = some (.ok report) ∧
      report.lastWatermark = some 20 ∧ report.failed = 1 ∧
      report.dispatched + report.encodeErrors = 2 := by
  intro replay steps told r
  have hstage : r.stage = .flushing := stage_of_waitsForFlush (by decide +kernel)
  have hds : replay.dispatches (steps 24 ++ told 0 .written ++ told 1 (.failed .abandoned) ++ steps 2) =
      [⟨0, ⟨10, "a", []⟩, 10⟩, ⟨1, ⟨20, "b", []⟩, 20⟩] := by decide +kernel
  have hfailures : (replay.dispatches (steps 24 ++ told 0 .written ++ told 1 (.failed .abandoned) ++
      steps 2)).countP (fun d => (r.outcomeOf d.handle).any Outcome.isFailure) = 1 := by decide +kernel
  obtain ⟨hrunning, hended⟩ := result?_flushed hstage ⟨2000000, 200⟩
  obtain ⟨before, moment, middle, w, -, -, -, -, -, hlast, ⟨⟨d, hd, hw⟩, hmax⟩, hfailed, hcount⟩ :=
    report_of_ended (EventQueue.yields [⟨10, "a", []⟩, ⟨20, "b", []⟩]) (by decide) (by decide) {} none 2
      ⟨0, 100⟩ (steps 24 ++ told 0 .written ++ told 1 (.failed .abandoned) ++ steps 2) (by decide)
      (.flushed ⟨2000000, 200⟩ (.ok ())) _ hrunning hended
  refine ⟨_, hended, ?_, hfailed.trans hfailures, hcount⟩
  have hge := hmax ⟨1, ⟨20, "b", []⟩, 20⟩ (hds ▸ by simp)
  have hle : d.outbound = 10 ∨ d.outbound = 20 := by
    have hmem : d ∈ [(⟨0, ⟨10, "a", []⟩, 10⟩ : Dispatch), ⟨1, ⟨20, "b", []⟩, 20⟩] := hds ▸ hd
    simp only [List.mem_cons, List.not_mem_nil, or_false] at hmem
    rcases hmem with rfl | rfl
    · exact .inl rfl
    · exact .inr rfl
  rw [hlast]
  exact congrArg some (by simp only at hge; omega)

end Replay

end EventReplay
