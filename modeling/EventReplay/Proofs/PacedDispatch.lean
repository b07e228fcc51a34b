import EventReplay.Proofs.Ending

/-!
# From the pace to the sink

What the producer does with an event, in this order: it gets the event from the source, asks as often as
it has to whether the event is due, learns that it is, gets a unit of the gate, and hands the event to
the sink (`Passage.marks`). The trace of a run is made up of such passages, one event after another, and
of the one that the producer is in the middle of (`Replay.Balanced.passes_follow`), so no event is sent
ahead of its time, and none is lost or repeated while the producer sleeps or waits.
-/

set_option autoImplicit false

namespace EventReplay

/-! ## Sources and their ends -/

/-- A source hands out just these events, and then comes to its end or to a fault. -/
inductive EventSource.Gives {σ : Type} [EventSource σ] : σ → List Event → Option SourceFault → Prop
  where
  | done {source : σ} (h : (next source).answer = .ok none) : Gives source [] none
  | failed {source : σ} {fault : SourceFault} (h : (next source).answer = .error fault) :
      Gives source [] (some fault)
  | more {source : σ} {event : Event} {events : List Event} {ending : Option SourceFault}
      (h : (next source).answer = .ok (some event)) (rest : Gives (next source).source events ending) :
      Gives source (event :: events) ending

theorem EventSource.Gives.yields {σ : Type} [EventSource σ] {source : σ} {events : List Event}
    {ending : Option SourceFault} (h : Gives source events ending) : Yields source events := by
  induction h with
  | done h => exact .done h
  | failed h => exact .failed h
  | more h rest ih => exact .more h ih

theorem EventQueue.gives (events : List Event) :
    EventSource.Gives (EventQueue.mk events) events none := by
  induction events with
  | nil => exact .done rfl
  | cons event events ih => exact .more rfl ih

/-! ## Passages -/

/-- What can be seen of the producer on the way of an event. -/
inductive PaceMark where
  /-- The source has been asked for the next event. -/
  | asked (answer : Except SourceFault (Option Event))
  /-- The event is not due, so the producer sleeps. -/
  | early (event : Event)
  /-- The event is due. -/
  | due (event : Event)
  /-- The gate has granted a unit for the event. -/
  | granted (event : Event)
  /-- The event goes to the sink at a wall-clock time. -/
  | sent (event : Event) (now : Int)

/-- The way of an event to the sink: how often the producer slept, and when the event was sent. -/
structure Passage where
  event : Event
  naps : Nat
  now : Int

/-- What is seen of an event that is not due yet, so many times. -/
def PaceMark.waiting (event : Event) (naps : Nat) : List PaceMark :=
  .asked (.ok (some event)) :: List.replicate naps (.early event)

theorem PaceMark.waiting_concat (event : Event) (naps : Nat) :
    waiting event naps ++ [.early event] = waiting event (naps + 1) := by
  rw [waiting, waiting, List.cons_append, List.replicate_succ']

/-- What is seen of a passage. -/
def Passage.marks (p : Passage) : List PaceMark :=
  PaceMark.waiting p.event p.naps ++ [.due p.event, .granted p.event, .sent p.event p.now]

/-- What is seen of the passage in which the producer is, after it has slept so many times. Behind the
last event there is only the answer of the source. -/
def Stage.begun : Stage → Nat → List PaceMark
  | .pacing event, naps | .asleep event, naps => PaceMark.waiting event naps
  | .observing (some event), naps | .reporting (some event) _ _, naps => PaceMark.waiting event naps
  | .reserving event _, naps => PaceMark.waiting event naps ++ [.due event]
  | .holding event, naps => PaceMark.waiting event naps ++ [.due event, .granted event]
  | .tracking .., _ | .hooking .., _ | .counting _, _ | .pulling, _ => []
  | .ended (.error (.source fault)), _ => [.asked (.error fault)]
  | _, _ => [.asked (.ok none)]

/-- The fault of the source with which a replay has ended. -/
def Stage.sourceFault? : Stage → Option SourceFault
  | .ended (.error (.source fault)) => some fault
  | _ => none

theorem Stage.Goes.sourceFault? {stage stage' : Stage} (h : Stage.Goes stage stage') :
    stage.sourceFault? = none ∧ stage'.sourceFault? = none := by
  cases h <;> exact ⟨rfl, rfl⟩

/-- The delivery that the sink is handed. -/
def Effect.delivery? : Effect → Option Delivery
  | .dispatch _ delivery => some delivery
  | _ => none

theorem Effect.delivery?_of_not_isForSink (effect : Effect) (h : effect.isForSink = false) :
    effect.delivery? = none := by
  cases effect with
  | dispatch handle delivery => simp [isForSink] at h
  | _ => rfl

namespace Replay

theorem Stage.Registers.begun {stage stage' : Stage} (h : Stage.Registers stage stage') (naps : Nat) :
    stage'.begun naps = stage.begun naps := by
  cases h <;> rfl

theorem Stage.Registers.sourceFault? {stage stage' : Stage} (h : Stage.Registers stage stage') :
    stage'.sourceFault? = stage.sourceFault? := by
  cases h <;> rfl

variable {σ : Type}

/-- The passage that ends with an action, after the producer has slept so many times. -/
def passage? (r : Replay σ) (naps : Nat) : ReplayAction → Option Passage
  | .produce moment =>
    match r.stage with
    | .holding event => some ⟨event, naps, moment.now⟩
    | _ => none
  | _ => none

/-- What is handed to the sink at the end of a passage. -/
def dispatchOf (r : Replay σ) (p : Passage) : Dispatch := ⟨r.nextHandle, p.event, r.outbound p.event p.now⟩

theorem hands_eq_passage? (r : Replay σ) (naps : Nat) (action : ReplayAction) :
    r.hands action = (r.passage? naps action).map r.dispatchOf := by
  cases action with
  | produce moment => cases hstage : r.stage <;> simp [hands, passage?, hstage, dispatchOf]
  | _ => rfl

variable [EventSource σ] {r r' : Replay σ} {ds : List Dispatch}

/-- What can be seen of an action. -/
def marksOf (r : Replay σ) : ReplayAction → List PaceMark
  | .produce moment =>
    match r.stage with
    | .pacing event =>
      match r.pace.decide moment.elapsed event.timestamp with
      | .sleep .. => [.early event]
      | .dispatch _ => [.due event]
    | .reserving event ticket =>
      if !r.gate.closed && r.gate.isReady ticket then [.granted event] else []
    | .holding event => [.sent event moment.now]
    | .pulling => [.asked (EventSource.next r.source).answer]
    | _ => []
  | _ => []

/-- What can be seen of a run. -/
def marks (r : Replay σ) : List ReplayAction → List PaceMark
  | [] => []
  | action :: actions => r.marksOf action ++ (r.act action).1.marks actions

/-! ## Every step -/

/-- Such an action ends no passage and shows nothing, and the producer is as far as it was. -/
theorem passes_of_silent {naps : Nat} {action : ReplayAction} (hmarks : r.marksOf action = [])
    (hpassage : r.passage? naps action = none) (hbegun : r'.stage.begun naps = r.stage.begun naps) :
    ∃ naps', r.stage.begun naps ++ r.marksOf action =
      (r.passage? naps action).toList.flatMap Passage.marks ++ r'.stage.begun naps' := by
  refine ⟨naps, ?_⟩
  rw [hmarks, hpassage, hbegun]
  exact List.append_nil _

/-- One case for each stage of the producer. -/
theorem passes_step (hopen : r.gate.closed = false) (moment : Moment) (naps : Nat) :
    ∃ naps', r.stage.begun naps ++ r.marksOf (.produce moment) =
      (r.passage? naps (.produce moment)).toList.flatMap Passage.marks ++
        (r.step moment).1.stage.begun naps' := by
  rcases hstage : r.stage with event | event | ⟨event, ticket⟩ | event | ⟨event, handle, outbound⟩ |
    ⟨event, handle, _ | ⟨hook, hooks⟩⟩ | event | _ | next | ⟨next, now, horizon⟩ | ticket | _ | _ |
    result
  case pacing =>
    simp only [Replay.step, marksOf, passage?, hstage]
    cases r.pace.decide moment.elapsed event.timestamp with
    | sleep wait gap => exact ⟨naps + 1, PaceMark.waiting_concat event naps⟩
    | dispatch gap => exact ⟨naps, rfl⟩
  case reserving =>
    simp only [Replay.step, marksOf, passage?, hstage, hopen, Bool.false_eq_true, if_false,
      Bool.not_false, Bool.true_and]
    split
    · exact ⟨naps, by simp [Stage.begun]⟩
    · exact ⟨naps, by simp [Stage.begun, hstage]⟩
  case holding =>
    simp only [Replay.step, marksOf, passage?, hstage]
    exact ⟨naps, by simp [Stage.begun, Passage.marks]⟩
  case pulling =>
    simp only [Replay.step, marksOf, passage?, hstage]
    rcases (EventSource.next r.source).answer with fault | _ | event
    · exact ⟨naps, rfl⟩
    · exact ⟨naps, rfl⟩
    · exact ⟨0, rfl⟩
  -- at the other stages nothing is seen
  all_goals
    rw [← hstage]
    refine passes_of_silent (by simp only [marksOf, hstage]) (by simp only [passage?, hstage]) ?_
  case observing =>
    rw [step_observing hstage, hstage]
    cases next <;> rfl
  case closing =>
    rw [step_closing hstage, hstage]
    rfl
  case hooking.cons =>
    simp only [Replay.step, hstage]
    rfl
  all_goals simp only [Replay.step, hstage]
  case reporting =>
    cases next <;> rfl
  case draining =>
    simp only [hopen, Bool.false_eq_true, if_false]
    split
    · rfl
    · rw [hstage]
  all_goals rfl

theorem Balanced.passes_act (hb : Balanced r ds) (action : ReplayAction) (naps : Nat) :
    ∃ naps', r.stage.begun naps ++ r.marksOf action =
      (r.passage? naps action).toList.flatMap Passage.marks ++ (r.act action).1.stage.begun naps' := by
  cases action with
  | produce moment => exact passes_step hb.serves.isOpen moment naps
  | tell handle outcome =>
      exact passes_of_silent rfl rfl ((turn_tell hb.coherent outcome).registers.begun naps)
  | continueTelling handle =>
      exact passes_of_silent rfl rfl ((turn_continueTelling hb.coherent).registers.begun naps)
  | wake =>
      refine passes_of_silent rfl rfl ?_
      show r.wake.stage.begun naps = _
      unfold Replay.wake
      split
      · rename_i hstage
        rw [hstage]
        rfl
      · rfl
  | flushed moment result =>
      refine passes_of_silent rfl rfl ?_
      show (r.flushed moment result).1.stage.begun naps = _
      unfold Replay.flushed
      split
      · rename_i hstage
        rw [hstage]
        cases result <;> rfl
      · rfl

/-! ## Whole runs -/

/-- What is seen of a run is one passage after another, and the one that is under way. The passages end
with the events that are handed over. -/
theorem Balanced.passes_follow (hb : Balanced r ds) (actions : List ReplayAction) (naps : Nat) :
    ∃ (passages : List Passage) (naps' : Nat), r.stage.begun naps ++ r.marks actions =
        passages.flatMap Passage.marks ++ (r.follow actions).1.stage.begun naps' ∧
      (r.dispatches actions).map (fun d => (d.event, d.outbound)) =
        passages.map fun p => (p.event, r.outbound p.event p.now) := by
  induction actions generalizing r ds naps with
  | nil => exact ⟨[], naps, List.append_nil _, rfl⟩
  | cons action actions ih =>
      obtain ⟨naps₁, hact⟩ := hb.passes_act action naps
      obtain ⟨passages, naps₂, hrest, hdispatches⟩ := ih (hb.act action) naps₁
      have houtbound := (hb.fixed action).outbound
      refine ⟨(r.passage? naps action).toList ++ passages, naps₂, ?_, ?_⟩
      · calc r.stage.begun naps ++ r.marks (action :: actions)
            = (r.stage.begun naps ++ r.marksOf action) ++ (r.act action).1.marks actions := by
              rw [marks, List.append_assoc]
          _ = (r.passage? naps action).toList.flatMap Passage.marks ++
                ((r.act action).1.stage.begun naps₁ ++ (r.act action).1.marks actions) := by
              rw [hact, List.append_assoc]
          _ = ((r.passage? naps action).toList ++ passages).flatMap Passage.marks ++
                (r.follow (action :: actions)).1.stage.begun naps₂ := by
              rw [hrest, List.flatMap_append, List.append_assoc]
              rfl
      · rw [dispatches, List.map_append, hdispatches, houtbound, hands_eq_passage? r naps,
          List.map_append]
        cases r.passage? naps action <;> rfl

/-! ## Deliveries -/

theorem Balanced.deliveries_act (hb : Balanced r ds) (action : ReplayAction) :
    (r.act action).2.filterMap Effect.delivery? = (r.hands action).toList.map r.delivery := by
  rw [← filterMap_isForSink Effect.delivery?_of_not_isForSink, hb.forSink_act]
  cases r.hands action <;> cases r.emits action <;> cases r.asksFlush action <;> rfl

/-- The sink is handed what the schedule hands over. -/
theorem Balanced.deliveries_follow (hb : Balanced r ds) (actions : List ReplayAction) :
    (r.follow actions).2.filterMap Effect.delivery? = (r.dispatches actions).map r.delivery := by
  induction actions generalizing r ds with
  | nil => rfl
  | cons action actions ih =>
      have hdelivery : (r.act action).1.delivery = r.delivery := by
        funext d
        simp only [delivery, (hb.fixed action).plan]
      calc (r.follow (action :: actions)).2.filterMap Effect.delivery?
          = (r.act action).2.filterMap Effect.delivery? ++
              ((r.act action).1.follow actions).2.filterMap Effect.delivery? :=
            List.filterMap_append ..
        _ = (r.hands action).toList.map r.delivery ++
              ((r.act action).1.dispatches actions).map r.delivery := by
            rw [hb.deliveries_act, ih (hb.act action), hdelivery]
        _ = (r.dispatches (action :: actions)).map r.delivery := by rw [dispatches, List.map_append]

/-! ## How the source ends -/

/-- While the producer will ask the source again, the source has an end; and then the replay has ended
with its fault, if that is one. -/
def Concludes (r : Replay σ) (ending : Option SourceFault) : Prop :=
  if r.stage.asksAgain then ∃ left, EventSource.Gives r.source left ending
  else r.stage.sourceFault? = ending

/-- A step that leaves the source alone and brings up no fault of it. -/
theorem Concludes.keep {ending : Option SourceFault} (h : Concludes r ending)
    (hsource : r'.source = r.source) (hagain : r'.stage.asksAgain = r.stage.asksAgain)
    (hfault : r'.stage.sourceFault? = r.stage.sourceFault?) : Concludes r' ending := by
  unfold Concludes at h ⊢
  rw [hagain, hsource, hfault]
  exact h

omit [EventSource σ] in
theorem Turn.source (ht : Turn r r') : r'.source = r.source := by
  cases ht with
  | quiet completions tellings stage heq => rw [heq]
  | ran tellings stage handle outcome hook hooks heq => rw [heq, runHook_eq]

theorem Transition.concludes {action : ReplayAction} {effects : List Effect}
    {ending : Option SourceFault} (h : Concludes r ending) (ht : Transition r action r' effects) :
    Concludes r' ending := by
  cases ht with
  | rest hsilent heq => exact heq ▸ h
  | turn hsilent hturn =>
      obtain ⟨-, hagain, -⟩ := hturn.registers.course
      exact h.keep hturn.source hagain hturn.registers.sourceFault?
  | move gate tally lag statistics metrics nextTicket stage hsilent hgoes heq =>
      subst heq
      exact h.keep rfl hgoes.asksAgain (hgoes.sourceFault?.2.trans hgoes.sourceFault?.1.symm)
  | hand moment event hproduce hstage heq =>
      subst heq
      exact h.keep rfl (by rw [hstage]; rfl) (by rw [hstage]; rfl)
  | track moment event handle outbound hproduce hstage heq =>
      subst heq
      exact h.keep rfl (by rw [hstage]; rfl) (by rw [hstage]; rfl)
  | pull stage' hsilent hstage hanswer heq =>
      subst heq
      unfold Concludes at h
      rw [hstage] at h
      obtain ⟨left, hgives⟩ := h
      -- the source answers as it is said to
      rcases hanswer with ⟨next, hanswer, rfl⟩ | ⟨fault, hanswer, rfl⟩
      · cases hgives with
        | done hdone =>
            obtain rfl : next = none := by simpa [hanswer] using hdone
            exact rfl
        | failed hfailed => simp [hanswer] at hfailed
        | more hmore hrest =>
            obtain ⟨event, rfl⟩ : ∃ event, next = some event := ⟨_, by simpa [hanswer] using hmore⟩
            exact ⟨_, hrest⟩
      · cases hgives with
        | done hdone => simp [hanswer] at hdone
        | failed hfailed =>
            obtain rfl : _ = fault := by simpa [hanswer] using hfailed.symm
            exact rfl
        | more hmore hrest => simp [hanswer] at hmore
  | observe moment next tracker marked hproduce hstage hemission hmarked heq =>
      subst heq
      refine h.keep hmarked.source ?_ ?_ <;> rw [hstage] <;> cases next <;> rfl
  | report moment next now horizon gate statistics metrics nextTicket stage' line notices hproduce hstage
      hgoes heq =>
      subst heq
      rcases hgoes with ⟨event, rfl, rfl⟩ | ⟨rfl, ticket, rfl⟩
      · exact h.keep rfl (by rw [hstage]; rfl) (by rw [hstage]; rfl)
      · exact h.keep rfl (by rw [hstage]; rfl) (by rw [hstage]; rfl)
  | drain ticket hsilent hstage hready heq =>
      subst heq
      exact h.keep rfl (by rw [hstage]; rfl) (by rw [hstage]; rfl)
  | close moment tracker marked hproduce hstage hemission hmarked heq =>
      subst heq
      exact h.keep hmarked.source (by rw [hstage]; rfl) (by rw [hstage]; rfl)
  | finish moment metrics hsilent hflushed hstage heq =>
      subst heq
      exact h.keep rfl (by rw [hstage]; rfl) (by rw [hstage]; rfl)

theorem Concludes.follow {ending : Option SourceFault} (hb : Balanced r ds) (h : Concludes r ending)
    (actions : List ReplayAction) : Concludes (r.follow actions).1 ending := by
  induction actions generalizing r ds with
  | nil => exact h
  | cons action actions ih => exact ih (hb.act action) (Transition.concludes h (hb.transition action))

theorem concludes_ofSource {source : σ} {events : List Event} {ending : Option SourceFault}
    (hgives : EventSource.Gives source events ending) (plan : ReplayPlan)
    (metrics : Option ReplayMetrics) (shards : Nat) (moment : Moment) :
    Concludes (ofSource plan metrics shards moment source).1 ending := by
  cases hgives with
  | done h => simp only [ofSource, h]; exact rfl
  | failed h => simp only [ofSource, h]; exact rfl
  | more h rest => simp only [ofSource, h]; exact ⟨_, rest⟩

/-! ## The dispatches of a replay -/

/-- A passage shows no fault of the source. -/
theorem asked_error_not_mem_marks (fault : SourceFault) (passages : List Passage) :
    .asked (.error fault) ∉ passages.flatMap Passage.marks := by
  simp [Passage.marks, PaceMark.waiting]

/-- Where a fault of the source shows, the replay has ended with it. -/
theorem Stage.ended_of_asked_error {stage : Stage} {fault : SourceFault} {naps : Nat}
    (h : .asked (.error fault) ∈ stage.begun naps) : stage = .ended (.error (.source fault)) := by
  unfold Stage.begun at h
  split at h <;> simp_all [PaceMark.waiting]

theorem begun_ofSource (plan : ReplayPlan) (metrics : Option ReplayMetrics) (shards : Nat)
    (moment : Moment) (source : σ) : (ofSource plan metrics shards moment source).1.stage.begun 0 =
      [.asked (EventSource.next source).answer] := by
  unfold ofSource
  rcases hanswer : (EventSource.next source).answer with fault | _ | event <;> simp only [hanswer] <;> rfl

/-- The time under which an event goes out, by the time of the first event. -/
theorem outbound_ofSource {source : σ} {events : List Event} {ending : Option SourceFault}
    (hgives : EventSource.Gives source events ending) (plan : ReplayPlan)
    (metrics : Option ReplayMetrics) (shards : Nat) (start : Moment) :
    (ofSource plan metrics shards start source).1.outbound = fun event now =>
      plan.adaptTime.outbound start.now ((events.head?.map Event.timestamp).getD 0) event.timestamp
        now := by
  cases hgives with
  | done h => simp only [ofSource, h]; rfl
  | failed h => simp only [ofSource, h]; rfl
  | more h rest => simp only [ofSource, h]; rfl

/-- Whatever the pace decides and however outcomes come back, the trace of a replay is made up of the
passages of its events, in the order of the source, and of the one that is under way: each event is
found to be due, and gets a unit of the gate, before it is sent. The sink is handed these events and no
others, under the key of the event, with the time adapted when it is sent. A replay that has come to a
result has sent all events; it has the fault of the source for its result if the source has come to
one, and a fault of the source ends it at once. -/
theorem dispatches_paced {source : σ} {events : List Event} {ending : Option SourceFault}
    (hgives : EventSource.Gives source events ending) (plan : ReplayPlan)
    (metrics : Option ReplayMetrics) (shards : Nat) (start : Moment) (schedule : List ReplayAction) :
    let opened := ofSource plan metrics shards start source
    let run := opened.1.follow schedule
    let trace := .asked (EventSource.next source).answer :: opened.1.marks schedule
    let origin := (events.head?.map Event.timestamp).getD 0
    ∃ (passages : List Passage) (naps : Nat),
      trace = passages.flatMap Passage.marks ++ run.1.stage.begun naps ∧
      passages.map Passage.event <+: events ∧
      (opened.2 ++ run.2).filterMap Effect.delivery? = passages.map (fun p =>
        ⟨plan.stream, .ofKey p.event.key, encodeEvent
          (plan.adaptTime.outbound start.now origin p.event.timestamp p.now) p.event⟩) ∧
      (∀ result, run.1.result? = some result → passages.map Passage.event = events ∧
        ∀ fault, result = .error (.source fault) ↔ ending = some fault) ∧
      ∀ fault, .asked (.error fault) ∈ trace → run.1.result? = some (.error (.source fault)) := by
  have hb := balanced_ofSource plan metrics shards start source
  have hs := supplied_ofSource hgives.yields plan metrics shards start
  have hc := concludes_ofSource hgives plan metrics shards start
  have hbegun := begun_ofSource plan metrics shards start source
  have hopening : (ofSource plan metrics shards start source).2.filterMap Effect.delivery? = [] := by
    rw [← filterMap_isForSink Effect.delivery?_of_not_isForSink, forSink_ofSource]
    rfl
  have hplan := (starts_ofSource plan metrics shards start source).plan
  have houtbound := outbound_ofSource hgives plan metrics shards start
  generalize ofSource plan metrics shards start source = opened at *
  intro opened' run trace origin
  subst opened'
  obtain ⟨passages, naps, htrace, hdispatches⟩ := hb.passes_follow schedule 0
  rw [hbegun] at htrace
  have hevents : (opened.1.dispatches schedule).map Dispatch.event = passages.map Passage.event := by
    simpa [Function.comp_def] using congrArg (List.map Prod.fst) hdispatches
  obtain ⟨left, hsupplied, hleft⟩ := hs.follow hb schedule
  rw [List.nil_append, hevents] at hsupplied
  refine ⟨passages, naps, htrace, ?_, ?_, ?_, ?_⟩
  · rw [hsupplied]
    exact List.prefix_append _ _
  · calc (opened.2 ++ run.2).filterMap Effect.delivery?
        = (opened.1.dispatches schedule).map opened.1.delivery := by
          rw [List.filterMap_append, hopening, hb.deliveries_follow]
          rfl
      _ = ((opened.1.dispatches schedule).map fun d => (d.event, d.outbound)).map fun sent =>
            ⟨plan.stream, .ofKey sent.1.key, encodeEvent sent.2 sent.1⟩ := by
          rw [List.map_map, ← hplan]
          rfl
      _ = _ := by
          rw [hdispatches, houtbound, List.map_map]
          rfl
  · intro result hresult
    have hstage := stage_of_result? hresult
    have hconcluded := hc.follow hb schedule
    unfold Concludes at hconcluded
    rw [hstage] at hsupplied hleft hconcluded
    obtain rfl : left = [] := hleft
    obtain rfl : ending = (Stage.ended result).sourceFault? := hconcluded.symm
    refine ⟨by simpa [Stage.coming] using hsupplied.symm, ?_⟩
    intro fault
    simp only [Stage.sourceFault?]
    split <;> simp_all
  · intro fault hfault
    have hfault : .asked (.error fault) ∈ passages.flatMap Passage.marks ++ run.1.stage.begun naps := by
      rw [← htrace]
      exact hfault
    have hbegun' := (List.mem_append.mp hfault).resolve_left (asked_error_not_mem_marks fault passages)
    simp only [result?, Stage.ended_of_asked_error hbegun']

/-- Two events, the second of which is not due when the pace is asked for the first time. -/
theorem dispatches_paced_two_events :
    let source := EventQueue.mk [⟨10, "a", []⟩, ⟨20, "b", []⟩]
    let opened := ofSource {} none 2 ⟨0, 100⟩ source
    let schedule := List.replicate 13 (ReplayAction.produce ⟨0, 100⟩) ++ .wake ::
      List.replicate 5 (.produce ⟨1000000, 200⟩)
    EventSource.Gives source source.events none ∧ (opened.1.marks schedule).length = 8 ∧
      ∃ (passages : List Passage) (naps : Nat),
        .asked (EventSource.next source).answer :: opened.1.marks schedule =
          passages.flatMap Passage.marks ++ (opened.1.follow schedule).1.stage.begun naps ∧
        passages.map Passage.event = source.events := by
  intro source opened schedule
  have hgives : EventSource.Gives source source.events none := EventQueue.gives _
  have hdelivered : ((opened.2 ++ (opened.1.follow schedule).2).filterMap Effect.delivery?).length = 2 := by
    decide +kernel
  obtain ⟨passages, naps, htrace, hprefix, hdeliveries, -⟩ :=
    dispatches_paced hgives {} none 2 ⟨0, 100⟩ schedule
  refine ⟨hgives, by decide +kernel, passages, naps, ?_, hprefix.eq_of_length ?_⟩
  · with_reducible exact htrace
  · rw [hdeliveries, List.length_map] at hdelivered
    rw [List.length_map, hdelivered]
    rfl

end Replay

end EventReplay
