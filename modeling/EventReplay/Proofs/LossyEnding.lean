import EventReplay.Proofs.Occupancy

/-!
# How a replay ends that leaves events out

`Replay.report_of_ended` is about schedules that leave no event out, since every event has an encoding.
Here the producer may leave out any event that it holds (`LossyAction`). `Replay.fates` lists what has
become of the events of the source so far, and `Replay.Decided` says how a replay stands with such a list:
which of the events its books hold, what it has counted of either kind, and what the source has left.
-/

set_option autoImplicit false

namespace EventReplay

/-- What becomes of an event of the source. -/
inductive EventFate where
  | handed (d : Dispatch)
  | leftOut (event : Event)

namespace EventFate

def event : EventFate → Event
  | .handed d => d.event
  | .leftOut event => event

def dispatch? : EventFate → Option Dispatch
  | .handed d => some d
  | .leftOut _ => none

def isLeftOut : EventFate → Bool
  | .handed _ => false
  | .leftOut _ => true

/-- An event is handed over or left out. -/
theorem length_dispatches_add_countP (fates : List EventFate) :
    (fates.filterMap dispatch?).length + fates.countP isLeftOut = fates.length := by
  induction fates with
  | nil => rfl
  | cons fate fates ih =>
      cases fate <;>
        simp only [List.filterMap_cons, List.countP_cons, dispatch?, isLeftOut, List.length_cons, if_true,
          Bool.false_eq_true, if_false] <;> omega

end EventFate

/-- The wall clock as the producer reads it at a step. -/
def LossyAction.reading : LossyAction → Option Int
  | .take action => action.reading
  | .leaveOut _ => none

namespace Replay

variable {σ : Type} [EventSource σ]

/-- What a step makes of the event that the producer holds, if it makes anything of it. -/
def fate? (r : Replay σ) : LossyAction → Option EventFate
  | .take action => (r.hands action).map .handed
  | .leaveOut _ =>
    match r.stage with
    | .holding event => some (.leftOut event)
    | _ => none

/-- What a schedule makes of the events of the source, in order. -/
def fates (r : Replay σ) : List LossyAction → List EventFate
  | [] => []
  | action :: actions => (r.fate? action).toList ++ (r.actLossy action).1.fates actions

variable {r : Replay σ} {events : List Event} {fates : List EventFate} {ds : List Dispatch}
  {handles : List Nat}

omit [EventSource σ] in
/-- Where nothing is left out, the event of a step is the one that it hands over. -/
theorem fate?_take (r : Replay σ) (action : ReplayAction) :
    (r.fate? (.take action)).toList.filterMap EventFate.dispatch? = (r.hands action).toList ∧
    (r.fate? (.take action)).toList.map EventFate.event =
      (r.hands action).toList.map Dispatch.event ∧
    (r.fate? (.take action)).toList.countP EventFate.isLeftOut = 0 := by
  simp only [fate?]
  cases r.hands action <;> exact ⟨rfl, rfl, rfl⟩

omit [EventSource σ] in
theorem fate?_leaveOut_of_not_holding (h : ∀ event, r.stage ≠ .holding event) (error : String) :
    r.fate? (.leaveOut error) = none := by
  unfold fate?
  cases hstage : r.stage with
  | holding event => exact absurd hstage (h event)
  | _ => rfl

/-! ## The sink sees the events that are handed over -/

/-- The handles that a step gives to the sink are those of the events that it hands over. -/
theorem Accounted.handles_actLossy (h : Accounted r handles) (action : LossyAction) :
    (r.actLossy action).2.filterMap Effect.handle? =
      ((r.fate? action).toList.filterMap EventFate.dispatch?).map Dispatch.handle := by
  obtain ⟨ds, hb, -⟩ := h
  cases action with
  | take action =>
      rw [(r.fate?_take action).1]
      exact hb.handles_act action
  | leaveOut error =>
      show (r.leaveOut error).2.filterMap Effect.handle? = _
      by_cases hholding : ∃ event, r.stage = .holding event
      · obtain ⟨event, hstage⟩ := hholding
        simp only [Replay.leaveOut, fate?, hstage]
        rfl
      · rw [leaveOut_of_not_holding (not_exists.mp hholding),
          fate?_leaveOut_of_not_holding (not_exists.mp hholding)]
        rfl

theorem Accounted.handles_followLossy (h : Accounted r handles) (actions : List LossyAction) :
    (r.followLossy actions).2.filterMap Effect.handle? =
      ((r.fates actions).filterMap EventFate.dispatch?).map Dispatch.handle := by
  induction actions generalizing r handles with
  | nil => rfl
  | cons action actions ih =>
      simp only [followLossy, Replay.fates, List.filterMap_append, List.map_append, h.handles_actLossy,
        ih (h.act action)]

/-! ## The last watermark -/

/-- The last marker settles the greatest of the outbound times, if there are any. -/
theorem Balanced.current_of_closing (hb : Balanced r ds) (h : Bounded r ds)
    (hmin : ∀ d ∈ ds, Millis.earliest ≤ d.outbound) (hout : r.gate.outstanding = 0)
    (hstage : r.stage = .closing) (moment : Moment) :
    (r.act (.produce moment)).1.tracker.current = (ds.map Dispatch.outbound).max? := by
  by_cases hne : ds = []
  · subst hne
    have hbounded := h.act hb hmin (.produce moment)
    simp only [tracks, hstage, Stage.untracked, List.append_nil] at hbounded
    show _ = none
    rw [Option.eq_none_iff_forall_not_mem]
    intro w hw
    obtain ⟨d, hd, -⟩ := hbounded w hw
    exact List.not_mem_nil hd
  · obtain ⟨d, hd, hsettle, hmax⟩ := hb.settle_closing hne h hout
    have hsettles : r.settles (.produce moment) = some d.outbound := by
      simp only [settles, hstage, hsettle]
    rw [(hb.settles_act hsettles).1, eq_comm, List.max?_eq_some_iff]
    refine ⟨List.mem_map_of_mem hd, ?_⟩
    intro t ht
    obtain ⟨d', hd', rfl⟩ := List.mem_map.mp ht
    exact hmax d' hd'

/-! ## The books of a replay that leaves events out -/

/-- What has been handed over is the first of what the source yields, and the rest is still to come. -/
theorem Supplied.rest {handed : List Dispatch} (h : Supplied r events handed) :
    ∃ left, events = handed.map Dispatch.event ++ left ∧ Supplied r left [] := by
  obtain ⟨left, hevents, hleft⟩ := h
  exact ⟨r.stage.coming ++ left, hevents, left, rfl, hleft⟩

/-- How a replay of some events stands when it is settled what becomes of the first of them, and some are
tracked. -/
structure Decided (r : Replay σ) (events : List Event) (fates : List EventFate) (ds : List Dispatch) :
    Prop where
  balanced : Balanced r ds
  handed : fates.filterMap EventFate.dispatch? = ds ++ r.stage.untracked
  supplied : ∃ left, events = fates.map EventFate.event ++ left ∧ Supplied r left []
  inRange : ∀ d ∈ fates.filterMap EventFate.dispatch?, Millis.InRange d.outbound
  bounded : Bounded r ds
  drained : Drained r
  settled : r.stage = .flushing → r.tracker.current = (ds.map Dispatch.outbound).max?
  dispatched : r.tally.dispatched + r.stage.uncounted = (fates.filterMap EventFate.dispatch?).length
  leftOut : r.tally.leftOut = fates.countP EventFate.isLeftOut

namespace Decided

variable (h : Decided r events fates ds)

include h

theorem earliest_le : ∀ d ∈ ds, Millis.earliest ≤ d.outbound := by
  intro d hd
  have hmem : d ∈ fates.filterMap EventFate.dispatch? := by
    rw [h.handed]
    exact List.mem_append_left _ hd
  exact (h.inRange d hmem).1

/-- Once the last marker has been made, nothing moves the watermark any more. -/
theorem settled_act (action : ReplayAction) (hflushing : (r.act action).1.stage = .flushing) :
    (r.act action).1.tracker.current = ((ds ++ r.tracks action).map Dispatch.outbound).max? := by
  cases h.balanced.entry action with
  | stay hstage =>
      have hstage' : r.stage = .flushing := hstage.symm.trans hflushing
      have hsilent := silent_of_isFinal (by rw [hstage']; rfl) action
      rw [h.balanced.current_of_settles_none hsilent.settles, hsilent.tracks, List.append_nil]
      exact h.settled hstage'
  | goOn hisLast => simp [hflushing, Stage.isLast] at hisLast
  | closing ticket hstage hready hstage' => simp [hflushing] at hstage'
  | flushing moment hstage hproduce =>
      subst hproduce
      rw [h.balanced.current_of_closing h.bounded h.earliest_le (h.drained (by rw [hstage]; rfl)) hstage]
      simp only [tracks, hstage, Stage.untracked, List.append_nil]
  | ended moment hstage hflushed hstage' => simp [hflushing] at hstage'

/-- A step that leaves nothing out. -/
theorem take (hevents : ∀ e ∈ events, Millis.InRange e.timestamp) {action : ReplayAction}
    (hclock : ∀ n ∈ action.reading, Millis.InRange n) :
    Decided (r.act action).1 events (fates ++ (r.fate? (.take action)).toList)
      (ds ++ r.tracks action) := by
  obtain ⟨left, hsplit, hsupplied⟩ := h.supplied
  have hleft : ∀ e ∈ left, Millis.InRange e.timestamp := fun e he =>
    hevents e (hsplit ▸ List.mem_append_right _ he)
  obtain ⟨hhands, hevent, hnoneLeftOut⟩ := r.fate?_take action
  have hsame := (h.balanced.transition action).leftOut
  refine ⟨h.balanced.act action, ?_, ?_, ?_, h.bounded.act h.balanced h.earliest_le action,
    h.drained.act h.balanced action, h.settled_act action, ?_, ?_⟩
  · rw [List.filterMap_append, h.handed, hhands, List.append_assoc, h.balanced.untracked_act,
      List.append_assoc]
  · obtain ⟨left', hsplit', hsupplied'⟩ := (hsupplied.act h.balanced action).rest
    refine ⟨left', ?_, hsupplied'⟩
    rw [hsplit, hsplit', List.nil_append, List.map_append, hevent, List.append_assoc]
  · intro d hd
    rw [List.filterMap_append, List.mem_append, hhands] at hd
    rcases hd with hd | hd
    · exact h.inRange d hd
    · exact hsupplied.inRange_hands h.balanced hleft hclock d (Option.mem_toList.mp hd)
  · have hcounted := h.balanced.counted_act action
    have hdispatched := h.dispatched
    rw [List.filterMap_append, List.length_append, hhands]
    omega
  · rw [hsame, h.leftOut, List.countP_append, hnoneLeftOut, Nat.add_zero]

/-- A step that leaves out the event that the producer holds. -/
theorem leaveOut {event : Event} (hstage : r.stage = .holding event) (error : String) :
    Decided (r.leaveOut error).1 events (fates ++ [.leftOut event]) ds := by
  obtain ⟨left, hsplit, left', hcoming, hyields⟩ := h.supplied
  have hbalanced := h.balanced.leaveOut hstage error
  have hhanded := h.handed
  have hdispatched := h.dispatched
  rw [hstage] at hcoming hyields hhanded hdispatched
  simp only [Replay.leaveOut, hstage] at hbalanced ⊢
  have hsame : (fates ++ [EventFate.leftOut event]).filterMap EventFate.dispatch? =
      fates.filterMap EventFate.dispatch? := by
    rw [List.filterMap_append]
    exact List.append_nil _
  refine ⟨hbalanced, hsame.trans hhanded, ⟨left', ?_, left', rfl, hyields⟩, ?_, h.bounded,
    by simp [Drained, Stage.isLast], by simp, ?_, ?_⟩
  · rw [hsplit, hcoming, List.map_append, List.append_assoc]
    rfl
  · rw [hsame]
    exact h.inRange
  · rw [hsame]
    exact hdispatched
  · rw [List.countP_append, ← h.leftOut]
    rfl

theorem act (hevents : ∀ e ∈ events, Millis.InRange e.timestamp) {action : LossyAction}
    (hclock : ∀ n ∈ action.reading, Millis.InRange n) :
    ∃ ds', Decided (r.actLossy action).1 events (fates ++ (r.fate? action).toList) ds' := by
  cases action with
  | take action => exact ⟨_, h.take hevents hclock⟩
  | leaveOut error =>
      refine ⟨ds, ?_⟩
      show Decided (r.leaveOut error).1 _ _ _
      by_cases hholding : ∃ event, r.stage = .holding event
      · obtain ⟨event, hstage⟩ := hholding
        have hfate : r.fate? (.leaveOut error) = some (.leftOut event) := by
          simp only [fate?, hstage]
        rw [hfate]
        exact h.leaveOut hstage error
      · rw [leaveOut_of_not_holding (not_exists.mp hholding),
          fate?_leaveOut_of_not_holding (not_exists.mp hholding), Option.toList_none, List.append_nil]
        exact h

end Decided

theorem Decided.follow (h : Decided r events fates ds)
    (hevents : ∀ e ∈ events, Millis.InRange e.timestamp) (actions : List LossyAction)
    (hclock : ∀ action ∈ actions, ∀ n ∈ action.reading, Millis.InRange n) :
    ∃ ds', Decided (r.followLossy actions).1 events (fates ++ r.fates actions) ds' := by
  induction actions generalizing r fates ds with
  | nil => exact ⟨ds, by simpa [followLossy, Replay.fates] using h⟩
  | cons action actions ih =>
      obtain ⟨hread, hlater⟩ := List.forall_mem_cons.mp hclock
      obtain ⟨ds', hact⟩ := h.act hevents hread
      simpa [followLossy, Replay.fates] using ih hact hlater

theorem decided_ofSource {source : σ} (hyields : EventSource.Yields source events) (plan : ReplayPlan)
    (metrics : Option ReplayMetrics) (shards : Nat) (start : Moment) :
    Decided (ofSource plan metrics shards start source).1 events [] [] := by
  have hstart := starts_ofSource plan metrics shards start source
  have hcounted := hstart.counted
  refine ⟨balanced_ofSource .., by rw [hstart.untracked]; rfl,
    ⟨events, rfl, supplied_ofSource hyields plan metrics shards start⟩, List.forall_mem_nil _, ?_, ?_, ?_,
    ?_, ?_⟩
  · intro w hw
    simp [hstart.current] at hw
  · intro hlast
    simp [hstart.isLast] at hlast
  · intro hflushing
    exact absurd hflushing hstart.flushing
  · rw [hstart.uncounted]
    show _ = 0
    omega
  · show _ = 0
    omega

/-! ## The report -/

/-- A step that leaves an event out ends no replay. -/
theorem take_of_ended {action : LossyAction} {report : ReplayReport} (hrunning : r.result? = none)
    (hended : (r.actLossy action).1.result? = some (.ok report)) : ∃ a, action = .take a := by
  cases action with
  | take a => exact ⟨a, rfl⟩
  | leaveOut error =>
      simp only [actLossy, Replay.leaveOut] at hended
      split at hended
      · simp [result?] at hended
      · simp [hrunning] at hended

/-- A replay that ends with a report, where any event may have been left out for want of an encoding.
Every event of the source has gone by then, in order: it has been handed to the sink, or left out. The
report gives the numbers of both, and nothing else counts as an encoding error. Every event that was
handed over has an outcome, and the failures are counted; the tracker holds nothing, no unit of the gate
is out, also none that was granted for an event that was left out, and the last watermark is the greatest
outbound time of the events that were handed over. -/
theorem report_of_ended_lossy {source : σ} (hyields : EventSource.Yields source events)
    (hevents : ∀ e ∈ events, Millis.InRange e.timestamp) (plan : ReplayPlan)
    (metrics : Option ReplayMetrics) (shards : Nat) (start : Moment) (schedule : List LossyAction)
    (hclock : ∀ action ∈ schedule, ∀ n ∈ action.reading, Millis.InRange n) (action : LossyAction)
    (report : ReplayReport)
    (hrunning : ((ofSource plan metrics shards start source).1.followLossy schedule).1.result? = none)
    (hended : (((ofSource plan metrics shards start source).1.followLossy schedule).1.actLossy
      action).1.result? = some (.ok report)) :
    let replay := (ofSource plan metrics shards start source).1
    let fates := replay.fates schedule
    let ds := fates.filterMap EventFate.dispatch?
    let r := (replay.followLossy schedule).1
    (fates.map EventFate.event = events ∧
      (replay.followLossy schedule).2.filterMap Effect.handle? = ds.map Dispatch.handle) ∧
    (report.dispatched = ds.length ∧ report.encodeErrors = fates.countP EventFate.isLeftOut ∧
      report.dispatched + report.encodeErrors = events.length) ∧
    ((∀ d ∈ ds, (r.outcomeOf d.handle).isSome = true) ∧
      report.failed = ds.countP fun d => (r.outcomeOf d.handle).any Outcome.isFailure) ∧
    r.tracker.outstanding = [] ∧ r.gate.outstanding = 0 ∧
    report.lastWatermark = (ds.map Dispatch.outbound).max? := by
  intro replay fates ds r
  obtain ⟨tracked, hdecided⟩ : ∃ tracked, Decided r events fates tracked :=
    (decided_ofSource hyields plan metrics shards start).follow hevents schedule hclock
  have hhandles : (replay.followLossy schedule).2.filterMap Effect.handle? = ds.map Dispatch.handle :=
    (accounted_ofSource plan metrics shards start source).handles_followLossy schedule
  obtain ⟨action, rfl⟩ := take_of_ended hrunning hended
  obtain ⟨moment, hflushing, -, rfl⟩ := hdecided.balanced.flushed_of_ended hrunning hended
  -- while the flush is waited for, everything has gone by and nothing is under way
  have hflushing : r.stage = .flushing := hflushing
  obtain rfl : ds = tracked := by
    have hhanded := hdecided.handed
    rw [hflushing] at hhanded
    exact hhanded.trans (List.append_nil _)
  have hout : r.gate.outstanding = 0 := hdecided.drained (by rw [hflushing]; rfl)
  obtain ⟨houtcomes, hholds, hfailed⟩ := hdecided.balanced.drained hout
  have hall : fates.map EventFate.event = events := by
    obtain ⟨left, hsplit, hsupplied⟩ := hdecided.supplied
    rw [hsplit, ← hsupplied.map_event_of_flushing hflushing]
    exact (List.append_nil _).symm
  have hdispatched : r.tally.dispatched = ds.length := by
    have hcounted := hdecided.dispatched
    rw [hflushing] at hcounted
    exact hcounted
  refine ⟨⟨hall, hhandles⟩, ⟨hdispatched, hdecided.leftOut, ?_⟩, ⟨houtcomes, hfailed⟩,
    hholds.outstanding_eq_nil, hout, hdecided.settled hflushing⟩
  calc r.tally.dispatched + r.tally.leftOut
      = ds.length + fates.countP EventFate.isLeftOut := by rw [hdispatched, hdecided.leftOut]
    _ = fates.length := EventFate.length_dispatches_add_countP fates
    _ = events.length := by rw [← hall, List.length_map]

/-- Of three events the second is left out, and the third fails. -/
example :
    let replay := (ofSource {} none 2 ⟨0, 100⟩
      (EventQueue.mk [⟨10, "a", []⟩, ⟨20, "b", []⟩, ⟨30, "c", []⟩])).1
    let steps := fun n => List.replicate n (LossyAction.take (.produce ⟨1000000, 100⟩))
    let told := fun handle outcome =>
      (.tell handle outcome :: List.replicate 4 (.continueTelling handle)).map LossyAction.take
    let r := (replay.followLossy (steps 14 ++ .leaveOut "no encoding" :: steps 24 ++ told 0 .written ++
      told 1 (.failed .abandoned) ++ steps 2)).1
    ∃ report, (r.actLossy (.take (.flushed ⟨2000000, 200⟩ (.ok ())))).1.result? = some (.ok report) ∧
      report.dispatched = 2 ∧ report.encodeErrors = 1 ∧ report.failed = 1 ∧
      report.lastWatermark = some 30 := by
  intro replay steps told r
  have hstage : r.stage = .flushing := stage_of_waitsForFlush (by decide +kernel)
  obtain ⟨-, hended⟩ := result?_flushed hstage ⟨2000000, 200⟩
  exact ⟨_, hended, by decide +kernel⟩

end Replay

end EventReplay
