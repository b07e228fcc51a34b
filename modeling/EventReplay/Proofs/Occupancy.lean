import Mathlib.Order.Bounds.Basic
import EventReplay.Proofs.Ending

/-!
# How many events wait for an outcome

A replay bounds the events that the sink has and has told no outcome of by the units of its gate. Here a
schedule may also leave events out, as if they had no encoding (`LossyAction`), and
`Replay.Accounted` ties the handles that went to the sink to the books of the replay, whatever becomes
of an event. From the books come the bound, the place of every unit, and the peak in the report.
-/

set_option autoImplicit false

namespace EventReplay

/-- A step of a replay, where events may want an encoding. -/
inductive LossyAction where
  | take (action : ReplayAction)
  /-- The event that the producer holds has no encoding. -/
  | leaveOut (error : String)

/-- The handle under which an effect hands an event to the sink. -/
def Effect.handle? : Effect → Option Nat
  | .dispatch handle _ => some handle
  | _ => none

/-- A plan that nothing speaks against lets events wait. -/
theorem ReplayPlan.maxOutstanding_pos {plan : ReplayPlan} (h : plan.fault? = none) :
    0 < plan.maxOutstanding := by
  unfold ReplayPlan.fault? at h
  by_cases hzero : plan.maxOutstanding = 0
  · rw [if_pos hzero] at h
    split at h
    · simp at h
    · split at h <;> simp at h
  · omega

theorem Stage.length_untracked_le (stage : Stage) : stage.untracked.length ≤ stage.permits := by
  cases stage <;> simp [Stage.untracked, Stage.permits]

/-- The unit of an event goes back with the last of its hooks. -/
theorem Books.mem_release_iff {ds : List Dispatch} {owed : Nat → List Hook}
    {outcome : Nat → Option Outcome} {tracker : Tracker} {failed permits : Nat}
    (h : Books ds owed outcome tracker failed permits) {d : Dispatch} (hd : d ∈ ds) :
    Hook.release ∈ owed d.handle ↔ owed d.handle ≠ [] := by
  have hsuffix := h.suffix d hd
  simp only [Dispatch.hooks, List.suffix_cons_iff, List.suffix_nil] at hsuffix
  rcases hsuffix with heq | heq | heq | heq <;> rw [heq] <;> simp

namespace Replay

variable {σ : Type} [EventSource σ]

/-- Takes one step of a schedule that may leave events out. -/
def actLossy (r : Replay σ) : LossyAction → Replay σ × List Effect
  | .take action => r.act action
  | .leaveOut error => r.leaveOut error

/-- Takes the steps of a schedule that may leave events out; gives all effects in order. -/
def followLossy (r : Replay σ) : List LossyAction → Replay σ × List Effect
  | [] => (r, [])
  | action :: actions =>
    let (r, effects) := r.actLossy action
    let (r, more) := followLossy r actions
    (r, effects ++ more)

variable {r r' : Replay σ} {ds : List Dispatch} {handles : List Nat}

theorem followLossy_concat (r : Replay σ) (actions : List LossyAction) (action : LossyAction) :
    (r.followLossy (actions ++ [action])).1 = ((r.followLossy actions).1.actLossy action).1 ∧
    (r.followLossy (actions ++ [action])).2 =
      (r.followLossy actions).2 ++ ((r.followLossy actions).1.actLossy action).2 := by
  induction actions generalizing r with
  | nil => exact ⟨rfl, List.append_nil _⟩
  | cons first actions ih =>
      obtain ⟨hstate, heffects⟩ := ih (r.actLossy first).1
      exact ⟨hstate, by simp only [List.cons_append, followLossy, heffects, List.append_assoc]⟩

/-! ## The handles at the sink -/

theorem filterMap_handle?_forSink (effects : List Effect) :
    effects.filterMap Effect.handle? = (effects.filter Effect.isForSink).filterMap Effect.handle? := by
  induction effects with
  | nil => rfl
  | cons effect effects ih =>
      cases effect <;> simp only [List.filterMap_cons, List.filter_cons, Effect.handle?, Effect.isForSink,
        ih, if_true, Bool.false_eq_true, if_false]

/-- The handles that an action gives to the sink are those of the events that it hands over. -/
theorem Balanced.handles_act (hb : Balanced r ds) (action : ReplayAction) :
    (r.act action).2.filterMap Effect.handle? = (r.hands action).toList.map Dispatch.handle := by
  have hmarker : (r.emits action).toList.filterMap (Effect.handle? ∘ fun w =>
      Effect.broadcast r.nextHandle r.plan.stream (encodeWatermark w)) = [] := by
    cases r.emits action <;> rfl
  have hflush : (if r.asksFlush action then [Effect.flush] else []).filterMap Effect.handle? = [] := by
    split <;> rfl
  rw [filterMap_handle?_forSink, hb.forSink_act, List.filterMap_append, List.filterMap_append,
    List.filterMap_map, List.filterMap_map, hmarker, hflush, List.append_nil, List.append_nil]
  cases r.hands action <;> rfl

/-- The books of a replay that has handed events to the sink under some handles: those that it tracks,
and one that it has just handed over. -/
def Accounted (r : Replay σ) (handles : List Nat) : Prop :=
  ∃ ds, Balanced r ds ∧ handles = (ds ++ r.stage.untracked).map Dispatch.handle

omit [EventSource σ] in
/-- Nothing is left out unless an event is held. -/
theorem leaveOut_of_not_holding (h : ∀ event, r.stage ≠ .holding event) (error : String) :
    r.leaveOut error = (r, []) := by
  unfold Replay.leaveOut
  split
  · rename_i event hstage
    exact absurd hstage (h event)
  · rfl

omit [EventSource σ] in
/-- An event that is left out gives its unit back and changes nothing else in the books. -/
theorem Balanced.leaveOut (hb : Balanced r ds) {event : Event} (hstage : r.stage = .holding event)
    (error : String) : Balanced (r.leaveOut error).1 ds := by
  obtain ⟨permits, hout, -⟩ := hb.books
  have hserves := hb.serves
  rw [hstage] at hout hserves
  have hpos : 0 < r.gate.outstanding := by
    simp only [Stage.permits] at hout
    omega
  have hunregistered : r.stage.unregistered = fun _ => [] := by
    rw [hstage]
    rfl
  have hunit : r.gate.release.outstanding + r.stage.permits = r.gate.outstanding := by
    rw [hstage]
    show r.gate.outstanding - 1 + 1 = r.gate.outstanding
    omega
  simp only [Replay.leaveOut, hstage]
  exact hb.pass rfl rfl rfl (.refl _) rfl hunregistered.symm (hserves.release hpos) hunit rfl rfl

/-- Whatever step comes next, the handles that go to the sink are entered in the books. -/
theorem Accounted.act (h : Accounted r handles) (action : LossyAction) :
    Accounted (r.actLossy action).1
      (handles ++ (r.actLossy action).2.filterMap Effect.handle?) := by
  obtain ⟨ds, hb, rfl⟩ := h
  cases action with
  | take action =>
      refine ⟨ds ++ r.tracks action, hb.act action, ?_⟩
      show _ ++ (r.act action).2.filterMap Effect.handle? = _
      rw [hb.handles_act, ← List.map_append, List.append_assoc, hb.untracked_act, List.append_assoc]
      rfl
  | leaveOut error =>
      show Accounted (r.leaveOut error).1 (_ ++ (r.leaveOut error).2.filterMap Effect.handle?)
      by_cases hholding : ∃ event, r.stage = .holding event
      · obtain ⟨event, hstage⟩ := hholding
        refine ⟨ds, hb.leaveOut hstage error, ?_⟩
        simp only [Replay.leaveOut, hstage]
        simp [Effect.handle?, Stage.untracked]
      · rw [leaveOut_of_not_holding (not_exists.mp hholding)]
        exact ⟨ds, hb, List.append_nil _⟩

theorem Accounted.follow (h : Accounted r handles) (actions : List LossyAction) :
    Accounted (r.followLossy actions).1
      (handles ++ (r.followLossy actions).2.filterMap Effect.handle?) := by
  induction actions generalizing r handles with
  | nil => simpa [followLossy] using h
  | cons action actions ih => simpa [followLossy] using ih (h.act action)

theorem accounted_ofSource (plan : ReplayPlan) (metrics : Option ReplayMetrics) (shards : Nat)
    (start : Moment) (source : σ) :
    Accounted (ofSource plan metrics shards start source).1 [] := by
  refine ⟨[], balanced_ofSource plan metrics shards start source, ?_⟩
  rw [(starts_ofSource plan metrics shards start source).untracked]
  rfl

/-! ## The place of every unit -/

section Accounted

omit [EventSource σ]

theorem Accounted.nodup (h : Accounted r handles) : handles.Nodup := by
  obtain ⟨ds, hb, rfl⟩ := h
  obtain ⟨permits, -, hbooks⟩ := hb.books
  rw [List.map_append, List.nodup_append']
  refine ⟨hbooks.distinct, ?_, ?_⟩
  · cases r.stage <;> simp [Stage.untracked]
  · intro handle hold hnew
    obtain ⟨d, hd, rfl⟩ := List.mem_map.mp hnew
    exact (hb.untracked d hd).2.1 hold

/-- A unit that is out belongs to the producer, who holds an event, or to an event whose last hook is
still to run. -/
theorem Accounted.outstanding_eq (h : Accounted r handles) :
    r.gate.outstanding =
      r.stage.permits + handles.countP fun handle => Hook.release ∈ r.owed handle := by
  obtain ⟨ds, hb, rfl⟩ := h
  obtain ⟨permits, hout, hbooks⟩ := hb.books
  have htracked : permits = (ds.map Dispatch.handle).countP fun handle =>
      Hook.release ∈ r.owed handle := by
    rw [hbooks.permits, List.countP_map]
    apply List.countP_congr
    intro d hd
    simp [hbooks.mem_release_iff hd]
  have huntracked : ((r.stage.untracked.map Dispatch.handle).countP fun handle =>
      Hook.release ∈ r.owed handle) = 0 := by
    rw [List.countP_eq_zero]
    intro handle hmem
    obtain ⟨d, hd, rfl⟩ := List.mem_map.mp hmem
    simp [(hb.untracked d hd).2.2]
  rw [List.map_append, List.countP_append, huntracked, ← htracked, hout]
  omega

/-- The last hook on a handle is still to run only while there is no outcome, the outcome is being told,
or the producer is about to register it. -/
theorem Coherent.owing (hc : Coherent r) {handle : Nat} {hook : Hook} (h : hook ∈ r.owed handle) :
    r.outcomeOf handle = none ∨ r.telling? handle ≠ none ∨ hook ∈ r.stage.unregistered handle := by
  have hlinked := hc.linked handle
  simp only [Replay.owed, queued, List.mem_append] at h
  simp only [outcomeOf]
  generalize r.completion? handle = c at *
  generalize r.telling? handle = t at *
  cases hlinked with
  | unknown => exact .inl rfl
  | pending waiting => exact .inl rfl
  | draining outcome late round => exact .inr (.inl (by simp))
  | resolved outcome => exact .inr (.inr (by simpa [Completion.kept] using h))

/-- Each event without an outcome has a unit of the gate. -/
theorem Accounted.unresolved_le (h : Accounted r handles) :
    (handles.countP fun handle => r.outcomeOf handle = none) ≤ r.gate.outstanding := by
  obtain ⟨ds, hb, rfl⟩ := h
  obtain ⟨permits, hout, hbooks⟩ := hb.books
  have htracked : ((ds.map Dispatch.handle).countP fun handle => r.outcomeOf handle = none) ≤
      permits := by
    rw [hbooks.permits, List.countP_map]
    apply List.countP_mono_left
    intro d hd hnone
    have howed := hbooks.untold d hd (by simpa using hnone)
    simp [howed, Dispatch.hooks]
  have huntracked : ((r.stage.untracked.map Dispatch.handle).countP fun handle =>
      r.outcomeOf handle = none) ≤ r.stage.permits := by
    calc ((r.stage.untracked.map Dispatch.handle).countP fun handle => r.outcomeOf handle = none)
        ≤ (r.stage.untracked.map Dispatch.handle).length := List.countP_le_length
      _ = r.stage.untracked.length := List.length_map ..
      _ ≤ r.stage.permits := r.stage.length_untracked_le
  rw [List.map_append, List.countP_append, hout]
  omega

/-- Each time that the tracker holds belongs to an event that has a unit of the gate. -/
theorem Accounted.size_le (h : Accounted r handles) : r.tracker.size ≤ r.gate.outstanding := by
  obtain ⟨ds, hb, rfl⟩ := h
  obtain ⟨permits, hout, hbooks⟩ := hb.books
  calc r.tracker.size
      = ds.countP fun d => r.owed d.handle = d.hooks := by
        rw [hbooks.holds.size, List.length_map, List.countP_eq_length_filter]
    _ ≤ ds.countP fun d => r.owed d.handle ≠ [] := by
        apply List.countP_mono_left
        intro d hd howed
        simp only [decide_eq_true_eq] at howed
        simp [howed, Dispatch.hooks]
    _ = permits := hbooks.permits.symm
    _ ≤ r.gate.outstanding := by omega

end Accounted

/-! ## The gate from step to step -/

omit [EventSource σ] in
theorem Turn.gate_moves (ht : Turn r r') : Gate.Moves r.gate r'.gate := by
  cases ht with
  | quiet completions tellings stage heq => exact heq ▸ .same
  | ran tellings stage handle outcome hook hooks heq =>
      rw [heq, runHook_eq]
      cases hook with
      | release => exact .release
      | _ => exact .same

theorem Transition.gate_moves {action : ReplayAction} {effects : List Effect}
    (ht : Transition r action r' effects) : Gate.Moves r.gate r'.gate := by
  cases ht with
  | turn _ hturn => exact hturn.gate_moves
  | move gate tally lag statistics metrics nextTicket stage hsilent hgoes heq hserves hpermits hfailed
      hleftOut hcounted htold hmoves => exact heq ▸ hmoves
  | report moment next now horizon gate statistics metrics nextTicket stage' line notices hproduce hstage
      hgoes heq hserves hout htold hshows hothers hmoves => exact heq ▸ hmoves
  | drain ticket hsilent hstage hready heq => exact heq ▸ .withdraw ticket
  | observe moment next tracker marked hproduce hstage hemission hmarked heq
  | close moment tracker marked hproduce hstage hemission hmarked heq =>
      have hgate : r'.gate = r.gate := by
        rw [heq]
        exact hmarked.gate
      exact hgate ▸ .same
  | _ =>
      subst r'
      exact .same

theorem Accounted.gate_moves (h : Accounted r handles) (action : LossyAction) :
    Gate.Moves r.gate (r.actLossy action).1.gate := by
  obtain ⟨ds, hb, -⟩ := h
  cases action with
  | take action => exact (hb.transition action).gate_moves
  | leaveOut error =>
      show Gate.Moves r.gate (r.leaveOut error).1.gate
      unfold Replay.leaveOut
      split
      · exact .release
      · exact .same

theorem Accounted.capacity_follow (h : Accounted r handles) (actions : List LossyAction) :
    (r.followLossy actions).1.gate.capacity = r.gate.capacity := by
  induction actions generalizing r handles with
  | nil => rfl
  | cons action actions ih =>
      calc ((r.followLossy (action :: actions)).1).gate.capacity
          = (r.actLossy action).1.gate.capacity := ih (h.act action)
        _ = r.gate.capacity := (h.gate_moves action).capacity

theorem capacity_ofSource (plan : ReplayPlan) (metrics : Option ReplayMetrics) (shards : Nat)
    (start : Moment) (source : σ) :
    (ofSource plan metrics shards start source).1.gate.capacity =
      min (max plan.maxOutstanding 1) Gate.maxCapacity := by
  unfold ofSource
  dsimp only
  split <;> rfl

/-! ## The peak -/

/-- The permits that were out at some moment of a schedule. -/
def levels (r : Replay σ) (actions : List LossyAction) : Set Nat :=
  {n | ∃ before, before <+: actions ∧ (r.followLossy before).1.gate.outstanding = n}

theorem levels_concat (r : Replay σ) (actions : List LossyAction) (action : LossyAction) :
    r.levels (actions ++ [action]) =
      insert ((r.followLossy actions).1.actLossy action).1.gate.outstanding (r.levels actions) := by
  ext n
  simp only [levels, Set.mem_ofPred_eq, Set.mem_insert_iff, List.prefix_concat_iff, or_and_right,
    exists_or, exists_eq_left, followLossy_concat]
  exact or_congr_left eq_comm

/-- A replay keeps the peak of its gate up to the present level, and reports it at its end. -/
structure Peaked (r : Replay σ) (levels : Set Nat) : Prop where
  greatest : IsGreatest levels r.gate.peak
  now : r.gate.outstanding ∈ levels
  reported : ∀ report, r.stage = .ended (.ok report) → report.peakOutstanding = r.gate.peak

theorem Peaked.act {levels : Set Nat} (h : Peaked r levels) (ha : Accounted r handles)
    (action : LossyAction) :
    Peaked (r.actLossy action).1 (insert (r.actLossy action).1.gate.outstanding levels) := by
  have hle : r.gate.outstanding ≤ r.gate.peak := h.greatest.2 h.now
  have hpeak := (ha.gate_moves action).peak hle
  refine ⟨?_, Set.mem_insert .., ?_⟩
  · rw [hpeak, max_comm]
    exact IsGreatest.insert _ h.greatest
  · intro report hended
    -- no level is new where a replay ends or has ended
    suffices hsame : report.peakOutstanding = r.gate.peak ∧
        (r.actLossy action).1.gate.outstanding ≤ r.gate.peak by
      rw [hpeak, hsame.1, max_eq_left hsame.2]
    obtain ⟨ds, hb, -⟩ := ha
    cases action with
    | take action =>
        cases hb.entry action with
        | stay hstage hout => exact ⟨h.reported report (hstage.symm.trans hended), hout.trans hle⟩
        | goOn hisLast hnot => exact absurd hended (hnot report)
        | closing _ _ _ hstage' => exact absurd (hstage'.symm.trans hended) (by simp)
        | flushing _ _ _ hstage' => exact absurd (hstage'.symm.trans hended) (by simp)
        | ended moment hstage hflushed hstage' =>
            obtain rfl : r.report moment.elapsed = report := by
              simpa using hstage'.symm.trans hended
            refine ⟨rfl, ?_⟩
            subst hflushed
            simpa [actLossy, Replay.act, flushed, hstage, onMetrics] using hle
    | leaveOut error =>
        have hnot : ∀ event, r.stage ≠ .holding event := by
          intro event hstage
          simp [actLossy, Replay.leaveOut, hstage] at hended
        simp only [actLossy, leaveOut_of_not_holding hnot] at hended ⊢
        exact ⟨h.reported report hended, hle⟩

theorem Peaked.follow (h : Peaked r {r.gate.outstanding}) (ha : Accounted r handles)
    (actions : List LossyAction) : Peaked (r.followLossy actions).1 (r.levels actions) := by
  induction actions using List.reverseRecOn with
  | nil => simpa [levels, followLossy, eq_comm] using h
  | append_singleton actions action ih =>
      rw [(r.followLossy_concat actions action).1, levels_concat]
      exact ih.act (ha.follow actions) action

theorem peaked_ofSource (plan : ReplayPlan) (metrics : Option ReplayMetrics) (shards : Nat)
    (start : Moment) (source : σ) :
    let r := (ofSource plan metrics shards start source).1
    Peaked r {r.gate.outstanding} := by
  intro r
  subst r
  unfold ofSource
  dsimp only
  split
  · exact ⟨isGreatest_singleton, rfl, by rintro _ ⟨⟩⟩
  · exact ⟨isGreatest_singleton, rfl, by rintro _ ⟨⟩; rfl⟩
  · exact ⟨isGreatest_singleton, rfl, by rintro _ ⟨⟩⟩

/-! ## The bound -/

/-- At every moment of every schedule, wherever outcomes are told and whichever events are left out: no
more events wait for an outcome than the plan lets wait, the tracker holds no more of them than permits
are out, and no more permits are out than the gate has units. The report of a replay that has ended
gives the most permits that were ever out. And no unit of the gate is lost: each is free, or assigned to
the call of the producer, or held by the producer for an event, or held for an event that has been
handed over and whose last hook is still to run, because it has no outcome, or its outcome is being
told, or the hook is about to be registered. -/
theorem in_flight_bounded (plan : ReplayPlan) (hplan : plan.fault? = none)
    (metrics : Option ReplayMetrics) (shards : Nat) (start : Moment) (source : σ)
    (actions : List LossyAction) :
    let replay := (ofSource plan metrics shards start source).1
    let r := (replay.followLossy actions).1
    let handles := (replay.followLossy actions).2.filterMap Effect.handle?
    (handles.Nodup ∧
      (handles.countP fun handle => r.outcomeOf handle = none) ≤ plan.maxOutstanding) ∧
    r.tracker.size ≤ r.gate.outstanding ∧
    r.gate.outstanding ≤ r.gate.capacity ∧
    (∀ report, r.result? = some (.ok report) →
      IsGreatest (replay.levels actions) report.peakOutstanding) ∧
    (r.gate.free + Gate.held r.gate.waiting + Gate.held r.gate.ready + r.gate.outstanding =
        r.gate.capacity ∧
      r.gate.outstanding =
        r.stage.permits + handles.countP fun handle => Hook.release ∈ r.owed handle) ∧
    ∀ handle, Hook.release ∈ r.owed handle → r.outcomeOf handle = none ∨
      r.telling? handle ≠ none ∨ Hook.release ∈ r.stage.unregistered handle := by
  intro replay r handles
  have hstart := accounted_ofSource plan metrics shards start source
  have haccounted : Accounted r handles := by
    simpa using hstart.follow actions
  have hpeaked : Peaked r (replay.levels actions) :=
    (peaked_ofSource plan metrics shards start source).follow hstart actions
  have hcapacity : r.gate.capacity ≤ plan.maxOutstanding := by
    have hpos := ReplayPlan.maxOutstanding_pos hplan
    rw [hstart.capacity_follow actions, capacity_ofSource]
    omega
  have ⟨ds, hb, _⟩ := haccounted
  have houtstanding := hb.serves.outstanding_le
  refine ⟨⟨haccounted.nodup, ?_⟩, haccounted.size_le, houtstanding, ?_,
    ⟨hb.serves.conserved, haccounted.outstanding_eq⟩, fun _ howed => hb.coherent.owing howed⟩
  · calc (handles.countP fun handle => r.outcomeOf handle = none)
        ≤ r.gate.outstanding := haccounted.unresolved_le
      _ ≤ r.gate.capacity := houtstanding
      _ ≤ plan.maxOutstanding := hcapacity
  · intro report hended
    rw [hpeaked.reported report (stage_of_result? hended)]
    exact hpeaked.greatest

/-- Three events at a gate of one unit: the first is left out, the second waits for its outcome, and the
third waits for the unit. -/
theorem in_flight_bounded_one_unit :
    let replay := (ofSource { maxOutstanding := 1 } none 2 ⟨0, 100⟩
      (EventQueue.mk [⟨10, "a", []⟩, ⟨20, "b", []⟩, ⟨30, "c", []⟩])).1
    let steps := fun n => List.replicate n (LossyAction.take (.produce ⟨1000000, 100⟩))
    let actions := steps 2 ++ .leaveOut "no encoding" :: steps 20
    let r := (replay.followLossy actions).1
    let handles := (replay.followLossy actions).2.filterMap Effect.handle?
    ReplayPlan.fault? { maxOutstanding := 1 } = none ∧
    handles = [0] ∧ (handles.countP fun handle => r.outcomeOf handle = none) = 1 ∧
    r.tracker.size = 1 ∧ r.gate.outstanding = 1 := by
  intro replay steps actions r handles
  have hplan : ReplayPlan.fault? { maxOutstanding := 1 } = none := by decide +kernel
  have hhandles : handles = [0] := by decide +kernel
  have hwaits : (handles.countP fun handle => r.outcomeOf handle = none) = 1 := by decide +kernel
  have hheld : 1 ≤ r.tracker.size := by decide +kernel
  have hcapacity : r.gate.capacity = 1 := by decide +kernel
  subst r handles replay
  obtain ⟨-, hsize, hout, -⟩ := in_flight_bounded { maxOutstanding := 1 } hplan none 2 ⟨0, 100⟩
    (EventQueue.mk [⟨10, "a", []⟩, ⟨20, "b", []⟩, ⟨30, "c", []⟩]) actions
  rw [hcapacity] at hout
  exact ⟨hplan, hhandles, hwaits, le_antisymm (hsize.trans hout) hheld,
    le_antisymm hout (hheld.trans hsize)⟩

end Replay

end EventReplay
