import EventReplay.Proofs.Course

/-!
# From the source to the sink

A replay hands the events of its source to the sink, each once and in their order:
`Replay.Supplied` says that those handed over, the one that the producer holds, and those that the
source has left make up what the source yields.
-/

set_option autoImplicit false

namespace EventReplay

/-- A source hands out just these events, up to its end or its first fault. -/
inductive EventSource.Yields {σ : Type} [EventSource σ] : σ → List Event → Prop where
  | done {source : σ} (h : (next source).answer = .ok none) : Yields source []
  | failed {source : σ} {fault : SourceFault} (h : (next source).answer = .error fault) :
      Yields source []
  | more {source : σ} {event : Event} {events : List Event}
      (h : (next source).answer = .ok (some event)) (rest : Yields (next source).source events) :
      Yields source (event :: events)

theorem EventQueue.yields (events : List Event) : EventSource.Yields (EventQueue.mk events) events := by
  induction events with
  | nil => exact .done rfl
  | cons event events ih => exact .more rfl ih

namespace Replay

variable {σ : Type} [EventSource σ]

/-- The events that a schedule hands to the sink, in order. -/
def dispatches (r : Replay σ) : List ReplayAction → List Dispatch
  | [] => []
  | action :: actions => (r.hands action).toList ++ (r.act action).1.dispatches actions

variable {r : Replay σ} {ds : List Dispatch}

theorem follow_append (r : Replay σ) (before after : List ReplayAction) :
    (r.follow (before ++ after)).1 = ((r.follow before).1.follow after).1 ∧
    (r.follow (before ++ after)).2 = (r.follow before).2 ++ ((r.follow before).1.follow after).2 := by
  induction before generalizing r with
  | nil => exact ⟨rfl, rfl⟩
  | cons action actions ih =>
      obtain ⟨hstate, heffects⟩ := ih (r.act action).1
      exact ⟨hstate, by simp only [List.cons_append, follow, heffects, List.append_assoc]⟩

theorem dispatches_append (r : Replay σ) (before after : List ReplayAction) :
    r.dispatches (before ++ after) = r.dispatches before ++ (r.follow before).1.dispatches after := by
  induction before generalizing r with
  | nil => rfl
  | cons action actions ih => simp only [List.cons_append, dispatches, follow, ih, List.append_assoc]

/-! ## Handing over and tracking -/

/-- An event is tracked after it has been handed over and before the next one is. -/
theorem Transition.untracked {r' : Replay σ} {action : ReplayAction} {effects : List Effect}
    (ht : Transition r action r' effects) :
    r.stage.untracked ++ (r.hands action).toList = r.tracks action ++ r'.stage.untracked := by
  cases ht with
  | rest hsilent heq =>
      rw [heq, hsilent.hands, hsilent.tracks]
      exact List.append_nil _
  | turn hsilent hturn =>
      rw [hturn.registers.untracked, hsilent.hands, hsilent.tracks]
      exact List.append_nil _
  | move gate tally lag statistics metrics nextTicket stage hsilent hgoes heq =>
      rw [heq, hsilent.hands, hsilent.tracks, hgoes.untracked.1, hgoes.untracked.2]
      rfl
  | hand moment event hproduce hstage heq =>
      rw [hproduce, heq]
      simp only [hands, tracks, hstage, Stage.untracked]
      rfl
  | track moment event handle outbound hproduce hstage heq =>
      rw [hproduce, heq]
      simp only [hands, tracks, hstage, Stage.untracked]
      rfl
  -- nobody else has an event that is not tracked
  | pull stage' hsilent hstage hanswer heq =>
      rw [heq, hsilent.hands, hsilent.tracks, hstage]
      rcases hanswer with ⟨next, -, rfl⟩ | ⟨fault, -, rfl⟩ <;> rfl
  | observe moment next tracker marked hproduce hstage hemission hmarked heq =>
      rw [hproduce, heq]
      simp only [hands, tracks, hstage, Stage.untracked]
      rfl
  | report moment next now horizon gate statistics metrics nextTicket stage' line notices hproduce hstage
      hgoes heq =>
      rw [hproduce, heq]
      simp only [hands, tracks, hstage, Stage.untracked]
      rcases hgoes with ⟨event, -, rfl⟩ | ⟨-, ticket, rfl⟩ <;> rfl
  | drain ticket hsilent hstage hready heq =>
      rw [heq, hsilent.hands, hsilent.tracks, hstage]
      rfl
  | close moment tracker marked hproduce hstage hemission hmarked heq =>
      rw [hproduce, heq]
      simp only [hands, tracks, hstage, Stage.untracked]
      rfl
  | finish moment metrics hsilent hflushed hstage heq =>
      rw [heq, hsilent.hands, hsilent.tracks, hstage]
      rfl

theorem Balanced.untracked_act (hb : Balanced r ds) (action : ReplayAction) :
    r.stage.untracked ++ (r.hands action).toList =
      r.tracks action ++ (r.act action).1.stage.untracked :=
  (hb.transition action).untracked

theorem Balanced.untracked_follow (hb : Balanced r ds) (actions : List ReplayAction) :
    r.stage.untracked ++ r.dispatches actions =
      r.tracked actions ++ (r.follow actions).1.stage.untracked := by
  induction actions generalizing r ds with
  | nil => simp [dispatches, tracked, Replay.follow]
  | cons action actions ih =>
      have hact := hb.untracked_act action
      have hrest := ih (hb.act action)
      calc r.stage.untracked ++ r.dispatches (action :: actions)
          = (r.stage.untracked ++ (r.hands action).toList) ++ (r.act action).1.dispatches actions := by
            rw [dispatches, List.append_assoc]
        _ = r.tracks action ++
              ((r.act action).1.stage.untracked ++ (r.act action).1.dispatches actions) := by
            rw [hact, List.append_assoc]
        _ = r.tracks action ++ ((r.act action).1.tracked actions ++
              ((r.act action).1.follow actions).1.stage.untracked) := by rw [hrest]
        _ = r.tracked (action :: actions) ++ (r.follow (action :: actions)).1.stage.untracked := by
            rw [tracked, List.append_assoc]
            rfl

/-! ## What is handed over is what the source yields -/

/-- The events handed over, the one that the producer holds, and those left in the source are what the
source yields. -/
def Supplied (r : Replay σ) (events : List Event) (handed : List Dispatch) : Prop :=
  ∃ left, events = handed.map Dispatch.event ++ (r.stage.coming ++ left) ∧
    if r.stage.asksAgain then EventSource.Yields r.source left else left = []

theorem Supplied.act {events : List Event} {handed : List Dispatch} (hb : Balanced r ds)
    (h : Supplied r events handed) (action : ReplayAction) :
    Supplied (r.act action).1 events (handed ++ (r.hands action).toList) := by
  obtain ⟨left, hevents, hleft⟩ := h
  cases hb.course action with
  | quiet hhands hsettles hsource hcoming hagain =>
      refine ⟨left, ?_, ?_⟩
      · rw [hhands, hcoming]
        simpa using hevents
      · rw [hagain, hsource]
        exact hleft
  | hand moment event hproduce hstage hhands hsettles hsource hstage' =>
      refine ⟨left, ?_, ?_⟩
      · rw [hevents, hhands, hstage, hstage']
        simp [Stage.coming]
      · rw [hstage'] at *
        rw [hsource]
        rw [hstage] at hleft
        exact hleft
  | pull hhands hsettles hstage hsource hstage' =>
      rw [hstage] at hleft hevents
      simp only [Stage.asksAgain, if_true] at hleft
      rw [hhands]
      -- the source answers as it is said to
      rcases hstage' with ⟨next, hanswer, hnext⟩ | ⟨fault, hanswer, hended⟩
      · cases hleft with
        | done hdone =>
            obtain rfl : next = none := by simpa [hanswer] using hdone
            exact ⟨[], by rw [hnext]; simpa [Stage.coming] using hevents, by rw [hnext]; rfl⟩
        | failed hfailed => simp [hanswer] at hfailed
        | @more _ event left hmore hrest =>
            obtain rfl : next = some event := by simpa [hanswer] using hmore
            refine ⟨left, by rw [hnext]; simpa [Stage.coming] using hevents, ?_⟩
            rw [hnext, hsource]
            exact hrest
      · cases hleft with
        | done hdone => simp [hanswer] at hdone
        | failed hfailed =>
            exact ⟨[], by rw [hended]; simpa [Stage.coming] using hevents, by rw [hended]; rfl⟩
        | more hmore hrest => simp [hanswer] at hmore
  | settle moment next horizon hproduce hstage hhands hsettles hsource hcoming hagain =>
      refine ⟨left, ?_, ?_⟩
      · rw [hevents, hhands, hcoming]
        rcases hstage with ⟨hstage, -⟩ | ⟨now, hstage⟩ | ⟨hstage, hnext, -⟩
        · simp [hstage, Stage.coming]
        · simp [hstage, Stage.coming]
        · simp [hstage, hnext, Stage.coming]
      · rw [hagain, hsource]
        rcases hstage with ⟨hstage, -⟩ | ⟨now, hstage⟩ | ⟨hstage, hnext, -⟩
        · rw [hstage] at hleft
          cases next <;> exact hleft
        · rw [hstage] at hleft
          cases next <;> exact hleft
        · rw [hstage] at hleft
          rw [hnext]
          exact hleft

theorem Supplied.follow {events : List Event} {handed : List Dispatch} (hb : Balanced r ds)
    (h : Supplied r events handed) (actions : List ReplayAction) :
    Supplied (r.follow actions).1 events (handed ++ r.dispatches actions) := by
  induction actions generalizing r ds handed with
  | nil => simpa [dispatches, Replay.follow] using h
  | cons action actions ih =>
      have hact := ih (hb.act action) (h.act hb action)
      simpa [dispatches, Replay.follow] using hact

theorem supplied_ofSource {source : σ} {events : List Event}
    (hyields : EventSource.Yields source events) (plan : ReplayPlan) (metrics : Option ReplayMetrics)
    (shards : Nat) (moment : Moment) :
    Supplied (ofSource plan metrics shards moment source).1 events [] := by
  cases hyields with
  | done h => simp only [ofSource, h]; exact ⟨[], rfl, rfl⟩
  | failed h => simp only [ofSource, h]; exact ⟨[], rfl, rfl⟩
  | more h rest => simp only [ofSource, h]; exact ⟨_, rfl, rest⟩

end Replay

end EventReplay
