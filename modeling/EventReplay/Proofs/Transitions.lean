import EventReplay.Proofs.Books
import EventReplay.Proofs.GateLine

/-!
# The transitions of a replay

What one action can come to (`Replay.Transition`): one case for each way in which it can go, with the
state afterwards and the effects. `Replay.transition` finds the case of an action, as long as the gate
serves the producer and hooks go to handles that exist. Whatever is said of all actions is said of
the cases.
-/

set_option autoImplicit false

namespace EventReplay

/-! ## Stages -/

namespace Stage

/-- The call at the gate that the producer waits for: its ticket and the units that it needs. -/
def call : Stage → Nat → Option (Nat × Nat)
  | .reserving _ ticket, _ => some (ticket, 1)
  | .draining ticket, capacity => some (ticket, capacity)
  | _, _ => none

/-- The permits that the producer holds. -/
def permits : Stage → Nat
  | .holding _ | .tracking .. => 1
  | _ => 0

/-- The event that has been handed over and is not tracked yet. -/
def untracked : Stage → List Dispatch
  | .tracking event handle outbound => [⟨handle, event, outbound⟩]
  | _ => []

/-- Whether the producer puts hooks on an event. -/
def isHooking : Stage → Bool
  | .hooking .. => true
  | _ => false

/-- The event that the producer has taken from the source and not handed over. -/
def coming : Stage → List Event
  | .pacing event | .asleep event | .reserving event _ | .holding event => [event]
  | .observing next | .reporting next _ _ => next.toList
  | _ => []

/-- Whether the producer will ask the source again. -/
def asksAgain : Stage → Bool
  | .observing none | .reporting none _ _ | .draining _ | .closing | .flushing | .ended _ => false
  | _ => true

/-- An event that has been handed over and is not counted yet. -/
def uncounted : Stage → Nat
  | .tracking .. | .hooking .. | .counting _ => 1
  | _ => 0

/-- Whether all events have been handed over and have an outcome. -/
def isLast : Stage → Bool
  | .closing | .flushing => true
  | _ => false

/-- Whether a replay has asked for the flush, or has come to an end. -/
def isFinal : Stage → Bool
  | .flushing | .ended _ => true
  | _ => false

/-- The producer goes on, and neither takes an event nor hands one over. -/
inductive Goes : Stage → Stage → Prop where
  | sleep (event : Event) : Goes (.pacing event) (.asleep event)
  | wake (event : Event) : Goes (.asleep event) (.observing (some event))
  | call (event : Event) (ticket : Nat) : Goes (.pacing event) (.reserving event ticket)
  | enter (event : Event) (ticket : Nat) : Goes (.reserving event ticket) (.holding event)
  | count (event : Event) (handle : Nat) : Goes (.hooking event handle []) (.counting event)
  | pull (event : Event) : Goes (.counting event) .pulling
  | fail (fault : DispatchFault) : Goes .flushing (.ended (.error (.sink fault)))

namespace Goes

variable {stage stage' : Stage} (h : Goes stage stage')

include h

theorem coming : stage'.coming = stage.coming := by
  cases h <;> rfl

theorem asksAgain : stage'.asksAgain = stage.asksAgain := by
  cases h <;> rfl

theorem unregistered : stage'.unregistered = stage.unregistered := by
  cases h with
  | count event handle =>
      funext i
      simp [Stage.unregistered]
  | _ => rfl

theorem untracked : stage.untracked = [] ∧ stage'.untracked = [] := by
  cases h <;> exact ⟨rfl, rfl⟩

theorem isHooking : stage'.isHooking = false := by
  cases h <;> rfl

theorem isLast : stage'.isLast = false := by
  cases h <;> rfl

theorem isFinal (hfinal : stage.isFinal = true) : stage'.isFinal = true := by
  cases h with
  | fail fault => rfl
  | _ => simp [Stage.isFinal] at hfinal

theorem ne_reporting (next : Option Event) (now : Int) (horizon : Option Int) :
    stage' ≠ .reporting next now horizon := by
  cases h <;> simp

theorem ne_ended (report : ReplayReport) : stage' ≠ .ended (.ok report) := by
  cases h <;> simp

end Goes

end Stage

/-! ## What an action does, seen from outside -/

/-- Whether an effect asks something of the sink. -/
def Effect.isForSink : Effect → Bool
  | .dispatch .. | .broadcast .. | .flush => true
  | .notice _ | .sleep _ => false

/-- A notice that a delivery has failed. -/
inductive Effect.IsFailure : Effect → Prop where
  | event (timestamp : Int) (key error : String) :
      IsFailure (.notice (.dispatchFailed timestamp key error))
  | marker (shard : Nat) (watermark : Int) (error : String) :
      IsFailure (.notice (.markerFailed shard watermark error))

namespace Replay

variable {σ : Type}

/-- The event that an action hands to the sink. -/
def hands (r : Replay σ) : ReplayAction → Option Dispatch
  | .produce moment =>
    match r.stage with
    | .holding event => some ⟨r.nextHandle, event, r.outbound event moment.now⟩
    | _ => none
  | _ => none

/-- The event that an action tracks. -/
def tracks (r : Replay σ) : ReplayAction → List Dispatch
  | .produce _ => r.stage.untracked
  | _ => []

/-- The watermark that an action settles: for a marker where one is due, for the progress line, and for
the last marker. -/
def settles (r : Replay σ) : ReplayAction → Option Int
  | .produce moment =>
    match r.stage with
    | .observing next =>
      if r.tracker.isDue moment.now then
        (r.tracker.settle (next.map fun event => r.outbound event moment.now)).1
      else none
    | .reporting _ _ horizon => (r.tracker.settle horizon).1
    | .closing => (r.tracker.settle none).1
    | _ => none
  | _ => none

/-- The marker that an action broadcasts. -/
def emits (r : Replay σ) : ReplayAction → Option Watermark
  | .produce moment =>
    match r.stage with
    | .observing next =>
      (r.tracker.maybeEmit moment.now (next.map fun event => r.outbound event moment.now)).1
    | .closing => (r.tracker.emitNow moment.now none).1
    | _ => none
  | _ => none

/-- Whether an action asks the sink to flush. -/
def asksFlush (r : Replay σ) : ReplayAction → Bool
  | .produce _ =>
    match r.stage with
    | .closing => true
    | _ => false
  | _ => false

/-- The delivery of an event that is handed over. -/
def delivery (r : Replay σ) (d : Dispatch) : Delivery :=
  ⟨r.plan.stream, .ofKey d.event.key, encodeEvent d.outbound d.event⟩

/-- An action that hands nothing over, tracks nothing, and settles and asks for nothing. -/
structure Silent (r : Replay σ) (action : ReplayAction) : Prop where
  hands : r.hands action = none
  tracks : r.tracks action = []
  settles : r.settles action = none
  emits : r.emits action = none
  asksFlush : r.asksFlush action = false

/-- A replay that has asked for the flush does nothing more. -/
theorem silent_of_isFinal {r : Replay σ} (h : r.stage.isFinal = true) (action : ReplayAction) :
    Silent r action := by
  have hstage : r.stage = .flushing ∨ ∃ result, r.stage = .ended result := by
    cases hstage : r.stage <;> simp_all [Stage.isFinal]
  rcases hstage with hstage | ⟨result, hstage⟩ <;> cases action <;>
    exact ⟨by simp [hands, hstage], by simp [tracks, hstage, Stage.untracked], by simp [settles, hstage],
      by simp [emits, hstage], by simp [asksFlush, hstage]⟩

/-! ## Hooks only tell failures -/

theorem runHook_effects (r : Replay σ) (outcome : Outcome) (hook : Hook) :
    ∀ effect ∈ (r.runHook outcome hook).2, effect.IsFailure := by
  cases hook with
  | settle outbound => exact List.forall_mem_nil _
  | countFailure timestamp key =>
      cases outcome with
      | written => exact List.forall_mem_nil _
      | failed fault =>
          intro effect heffect
          obtain rfl := List.mem_singleton.mp heffect
          exact .event ..
  | release => exact List.forall_mem_nil _
  | noteMarker shard watermark =>
      cases outcome with
      | written => exact List.forall_mem_nil _
      | failed fault =>
          intro effect heffect
          obtain rfl := List.mem_singleton.mp heffect
          exact .marker ..

theorem register_effects (r : Replay σ) (handle : Nat) (hook : Hook) :
    ∀ effect ∈ (r.register handle hook).2, effect.IsFailure := by
  unfold register
  split
  · simp
  · split
    · simp
    · exact runHook_effects _ _ _

theorem continueTelling_effects (r : Replay σ) (handle : Nat) :
    ∀ effect ∈ (r.continueTelling handle).2, effect.IsFailure := by
  unfold continueTelling
  split
  · simp
  · dsimp only
    split
    · exact runHook_effects _ _ _
    · split <;> simp

/-! ## The transitions -/

variable [EventSource σ]

/-- What an action comes to: one case for each way in which it can go. -/
inductive Transition (r : Replay σ) (action : ReplayAction) (r' : Replay σ) (effects : List Effect) :
    Prop where
  /-- There is nothing to do, or not yet. -/
  | rest (silent : Silent r action) (eq : r' = r) (told : effects = [])
  /-- A hook is registered, or an outcome is being told. -/
  | turn (silent : Silent r action) (turn : Turn r r') (told : ∀ effect ∈ effects, effect.IsFailure)
  /-- The producer goes on. -/
  | move (gate : Gate) (tally : Tally) (lag : Float) (statistics : Statistics)
      (metrics : Option ReplayMetrics) (nextTicket : Nat) (stage : Stage) (silent : Silent r action)
      (goes : Stage.Goes r.stage stage)
      (eq : r' = { r with gate, tally, lag, statistics, metrics, nextTicket, stage })
      (serves : gate.Serves (stage.call gate.capacity))
      (permits : gate.outstanding + r.stage.permits = r.gate.outstanding + stage.permits)
      (failed : tally.failed = r.tally.failed)
      (leftOut : tally.leftOut = r.tally.leftOut)
      (counted : tally.dispatched + tally.leftOut + stage.uncounted =
        r.tally.dispatched + r.tally.leftOut + r.stage.uncounted)
      (told : ∀ effect ∈ effects, ∃ wait, effect = .sleep wait)
      (moves : Gate.Moves r.gate gate)
  /-- An event is handed to the sink under a new handle. -/
  | hand (moment : Moment) (event : Event) (produce : action = .produce moment)
      (stage : r.stage = .holding event)
      (eq : r' = { r.openHandles 1 with
        stage := .tracking event r.nextHandle (r.outbound event moment.now) })
      (told : effects =
        [.dispatch r.nextHandle (r.delivery ⟨r.nextHandle, event, r.outbound event moment.now⟩)])
  /-- The event that has been handed over is tracked. -/
  | track (moment : Moment) (event : Event) (handle : Nat) (outbound : Int)
      (produce : action = .produce moment) (stage : r.stage = .tracking event handle outbound)
      (eq : r' = { r with
        tracker := r.tracker.track outbound
        stage := .hooking event handle (Dispatch.hooks ⟨handle, event, outbound⟩) })
      (told : effects = [])
  /-- The source is asked for an event. -/
  | pull (stage' : Stage) (silent : Silent r action) (stage : r.stage = .pulling)
      (answer : (∃ next, (EventSource.next r.source).answer = .ok next ∧ stage' = .observing next) ∨
        ∃ fault, (EventSource.next r.source).answer = .error fault ∧
          stage' = .ended (.error (.source fault)))
      (eq : r' = { r with source := (EventSource.next r.source).source, stage := stage' })
      (told : effects = (EventSource.next r.source).notices.map .notice)
  /-- A marker is broadcast, if one is due. -/
  | observe (moment : Moment) (next : Option Event) (tracker : Tracker) (marked : Replay σ)
      (produce : action = .produce moment) (stage : r.stage = .observing next)
      (emission : Tracker.Emission r.tracker tracker moment.now (r.settles action) (r.emits action))
      (marked_eq : Marked { r with tracker } marked (r.emits action))
      (eq : r' = { marked with
        stage := .reporting next moment.now (next.map fun event => r.outbound event moment.now) })
      (told : effects = (r.emits action).toList.map fun w =>
        .broadcast r.nextHandle r.plan.stream (encodeWatermark w))
  /-- A progress line is told, if one is due, and after the last event the drain begins. -/
  | report (moment : Moment) (next : Option Event) (now : Int) (horizon : Option Int) (gate : Gate)
      (statistics : Statistics) (metrics : Option ReplayMetrics) (nextTicket : Nat) (stage' : Stage)
      (line : Option String) (notices : List Notice) (produce : action = .produce moment)
      (stage : r.stage = .reporting next now horizon)
      (goes : (∃ event, next = some event ∧ stage' = .pacing event) ∨
        next = none ∧ ∃ ticket, stage' = .draining ticket)
      (eq : r' = { r with
        gate, statistics, metrics, nextTicket
        tracker := (r.tracker.settle horizon).2
        stage := stage' })
      (serves : gate.Serves (stage'.call gate.capacity))
      (outstanding : gate.outstanding = r.gate.outstanding)
      (told : effects = (line.map fun text => .notice (.progress text)).toList ++
        notices.map .notice)
      (shows : ∀ text, line = some text →
        ∃ statistics lag, text = Statistics.line statistics (r.settles action) lag)
      (others : ∀ text, .progress text ∉ notices)
      (moves : Gate.Moves r.gate gate)
  /-- The gate has got all its units back. -/
  | drain (ticket : Nat) (silent : Silent r action) (stage : r.stage = .draining ticket)
      (ready : r.gate.isReady ticket = true)
      (eq : r' = { r with gate := r.gate.withdraw ticket, stage := .closing })
      (told : effects = [])
  /-- The last marker is broadcast, and the flush asked for. -/
  | close (moment : Moment) (tracker : Tracker) (marked : Replay σ)
      (produce : action = .produce moment) (stage : r.stage = .closing)
      (emission : Tracker.Emission r.tracker tracker moment.now (r.settles action) (r.emits action))
      (marked_eq : Marked { r with tracker } marked (r.emits action))
      (eq : r' = { marked with stage := .flushing })
      (told : effects = ((r.emits action).toList.map fun w =>
        .broadcast r.nextHandle r.plan.stream (encodeWatermark w)) ++ [.flush])
  /-- The sink has been flushed. -/
  | finish (moment : Moment) (metrics : Option ReplayMetrics) (silent : Silent r action)
      (flushed : action = .flushed moment (.ok ())) (stage : r.stage = .flushing)
      (eq : r' = { r with metrics, stage := .ended (.ok (r.report moment.elapsed)) })
      (told : effects = [.notice (.state .terminated)])

theorem step_observing {r : Replay σ} {next : Option Event} (hstage : r.stage = .observing next)
    (moment : Moment) :
    let horizon := next.map fun event => r.outbound event moment.now
    let emission := r.tracker.maybeEmit moment.now horizon
    let broadcast := broadcastMarker { r with tracker := emission.2 } emission.1
    r.step moment = ({ broadcast.1 with stage := .reporting next moment.now horizon }, broadcast.2) := by
  cases r
  cases hstage
  rfl

theorem step_closing {r : Replay σ} (hstage : r.stage = .closing) (moment : Moment) :
    let emission := r.tracker.emitNow moment.now none
    let broadcast := broadcastMarker { r with tracker := emission.2 } emission.1
    r.step moment = ({ broadcast.1 with stage := .flushing }, broadcast.2 ++ [.flush]) := by
  cases r
  cases hstage
  rfl

variable {r : Replay σ}

theorem transition_observing (hc : Coherent r) {next : Option Event}
    (hstage : r.stage = .observing next) (moment : Moment) :
    Transition r (.produce moment) (r.step moment).1 (r.step moment).2 := by
  have hsettles : r.settles (.produce moment) = if r.tracker.isDue moment.now then
      (r.tracker.settle (next.map fun event => r.outbound event moment.now)).1 else none := by
    simp only [settles, hstage]
  have hemits : r.emits (.produce moment) = (r.tracker.maybeEmit moment.now
      (next.map fun event => r.outbound event moment.now)).1 := by
    simp only [emits, hstage]
  have hemission := r.tracker.maybeEmit_spec moment.now
    (next.map fun event => r.outbound event moment.now)
  rw [← hsettles, ← hemits] at hemission
  have hcoherent := hc.setTracker (r.tracker.maybeEmit moment.now
    (next.map fun event => r.outbound event moment.now)).2
  obtain ⟨hmarked, htold⟩ := broadcastMarker_spec hcoherent (r.emits (.produce moment))
  rw [step_observing hstage, ← hemits]
  refine .observe moment next _ _ rfl hstage hemission hmarked rfl ?_
  rw [htold]
  cases r.emits (.produce moment) <;> rfl

theorem transition_reporting (hserves : r.gate.Serves none) {next : Option Event} {now : Int}
    {horizon : Option Int} (hstage : r.stage = .reporting next now horizon) (moment : Moment) :
    Transition r (.produce moment) (r.step moment).1 (r.step moment).2 := by
  have hsettles : r.settles (.produce moment) = (r.tracker.settle horizon).1 := by
    simp only [settles, hstage]
  have hshows : ∀ text, (r.statistics.maybeReport now (r.tracker.settle horizon).1 r.lag).1 =
      some text → ∃ statistics lag,
        text = Statistics.line statistics (r.settles (.produce moment)) lag := by
    intro text htext
    unfold Statistics.maybeReport at htext
    split at htext
    · simp at htext
    · exact ⟨_, _, by rw [hsettles]; exact (Option.some.inj htext).symm⟩
  simp only [Replay.step, hstage]
  cases next with
  | some event =>
      exact .report moment (some event) now horizon _ _ _ _ _ _ [] rfl hstage (.inl ⟨event, rfl, rfl⟩)
        rfl hserves rfl (List.append_nil _).symm hshows (by simp) .same
  | none =>
      refine .report moment none now horizon _ _ _ _ _ _ [.state .draining] rfl hstage
        (.inr ⟨rfl, _, rfl⟩) rfl ?_ (Gate.outstanding_ask ..) rfl hshows (by simp) (.ask ..)
      show Gate.Serves (r.gate.ask r.nextTicket r.gate.capacity)
        (some (r.nextTicket, (r.gate.ask r.nextTicket r.gate.capacity).capacity))
      rw [Gate.capacity_ask]
      exact hserves.ask ..

theorem transition_closing (hc : Coherent r) (hstage : r.stage = .closing) (moment : Moment) :
    Transition r (.produce moment) (r.step moment).1 (r.step moment).2 := by
  have hsettles : r.settles (.produce moment) = (r.tracker.settle none).1 := by
    simp only [settles, hstage]
  have hemits : r.emits (.produce moment) = (r.tracker.emitNow moment.now none).1 := by
    simp only [emits, hstage]
  have hemission := r.tracker.emitNow_spec moment.now none
  rw [← hsettles, ← hemits] at hemission
  have hcoherent := hc.setTracker (r.tracker.emitNow moment.now none).2
  obtain ⟨hmarked, htold⟩ := broadcastMarker_spec hcoherent (r.emits (.produce moment))
  rw [step_closing hstage, ← hemits]
  refine .close moment _ _ rfl hstage hemission hmarked rfl ?_
  rw [htold]
  cases r.emits (.produce moment) <;> rfl

/-- One case for each stage of the producer. -/
theorem transition_step (hc : Coherent r) (hserves : r.gate.Serves (r.stage.call r.gate.capacity))
    (hhooking : ∀ event handle hooks, r.stage = .hooking event handle hooks → handle < r.nextHandle)
    (moment : Moment) : Transition r (.produce moment) (r.step moment).1 (r.step moment).2 := by
  rcases hstage : r.stage with event | event | ⟨event, ticket⟩ | event | ⟨event, handle, outbound⟩ |
    ⟨event, handle, _ | ⟨hook, hooks⟩⟩ | event | _ | next | ⟨next, now, horizon⟩ | ticket | _ | _ |
    result <;> rw [hstage] at hserves
  case holding =>
    simp only [Replay.step, hstage]
    exact .hand moment event rfl hstage rfl rfl
  case tracking =>
    simp only [Replay.step, hstage]
    exact .track moment event handle outbound rfl hstage rfl rfl
  case observing => exact transition_observing hc hstage moment
  case reporting => exact transition_reporting hserves hstage moment
  case closing => exact transition_closing hc hstage moment
  -- at the other stages nothing is settled, and nothing goes to the sink
  all_goals
    have hsilent : Silent r (.produce moment) :=
      ⟨by simp only [hands, hstage], by simp only [tracks, hstage, Stage.untracked],
        by simp only [settles, hstage], by simp only [emits, hstage], by simp only [asksFlush, hstage]⟩
  case hooking.cons =>
    have hturn := turn_register hc hstage (hhooking _ _ _ hstage)
    simp only [Replay.step, hstage]
    exact .turn hsilent hturn (register_effects _ _ _)
  all_goals simp only [Replay.step, hstage]
  case pulling =>
    refine .pull _ hsilent hstage ?_ rfl rfl
    cases hanswer : (EventSource.next r.source).answer with
    | ok next => exact .inl ⟨next, rfl, rfl⟩
    | error fault => exact .inr ⟨fault, rfl, rfl⟩
  case pacing =>
    split
    · exact .move _ _ _ _ _ _ _ hsilent (hstage ▸ .sleep event) rfl hserves (by rw [hstage]; rfl) rfl
        rfl (by rw [hstage]; rfl) (by simp) .same
    · exact .move _ _ _ _ _ _ _ hsilent (hstage ▸ .call event _) rfl (hserves.ask ..)
        (by rw [hstage]; exact Gate.outstanding_ask ..) rfl rfl (by rw [hstage]; rfl) (by simp) (.ask ..)
  case reserving =>
    rw [if_neg (by simp [hserves.isOpen])]
    split
    · exact .move _ _ _ _ _ _ _ hsilent (hstage ▸ .enter event ticket) rfl (hserves.grant ‹_›)
        (by rw [hstage]; rfl) rfl rfl (by rw [hstage]; rfl) (by simp) (.grant ticket)
    · exact .rest hsilent rfl rfl
  case hooking.nil =>
    exact .move _ _ _ _ _ _ _ hsilent (hstage ▸ .count event handle) rfl hserves
      (by rw [hstage]; rfl) rfl rfl (by rw [hstage]; rfl) (by simp) .same
  case counting =>
    refine .move _ _ _ _ _ _ _ hsilent (hstage ▸ .pull event) rfl hserves (by rw [hstage]; rfl) rfl
      rfl ?_ (by simp) .same
    rw [hstage]
    simp only [Stage.uncounted]
    omega
  case draining =>
    rw [if_neg (by simp [hserves.isOpen])]
    split
    · exact .drain ticket hsilent hstage ‹_› rfl rfl
    · exact .rest hsilent rfl rfl
  all_goals exact .rest hsilent rfl rfl

/-- What an action comes to, while the gate serves the producer and hooks go to handles that exist. -/
theorem transition (hc : Coherent r) (hserves : r.gate.Serves (r.stage.call r.gate.capacity))
    (hhooking : ∀ event handle hooks, r.stage = .hooking event handle hooks → handle < r.nextHandle)
    (action : ReplayAction) : Transition r action (r.act action).1 (r.act action).2 := by
  cases action with
  | produce moment => exact transition_step hc hserves hhooking moment
  | wake =>
      have hsilent : Silent r .wake := ⟨rfl, rfl, rfl, rfl, rfl⟩
      show Transition r .wake r.wake []
      unfold Replay.wake
      split
      · rename_i event hstage
        rw [hstage] at hserves
        exact .move _ _ _ _ _ _ _ hsilent (hstage ▸ .wake event) rfl hserves (by rw [hstage]; rfl) rfl
          rfl (by rw [hstage]; rfl) (by simp) .same
      · exact .rest hsilent rfl rfl
  | tell handle outcome => exact .turn ⟨rfl, rfl, rfl, rfl, rfl⟩ (turn_tell hc outcome) (by simp [act])
  | continueTelling handle =>
      exact .turn ⟨rfl, rfl, rfl, rfl, rfl⟩ (turn_continueTelling hc) (continueTelling_effects r handle)
  | flushed moment result =>
      have hsilent : Silent r (.flushed moment result) := ⟨rfl, rfl, rfl, rfl, rfl⟩
      show Transition r _ (r.flushed moment result).1 (r.flushed moment result).2
      unfold Replay.flushed
      split
      · rename_i hstage
        rw [hstage] at hserves
        cases result with
        | error fault =>
            exact .move _ _ _ _ _ _ _ hsilent (hstage ▸ .fail fault) rfl hserves
              (by rw [hstage]; rfl) rfl rfl (by rw [hstage]; rfl) (by simp) .same
        | ok => exact .finish moment _ hsilent rfl hstage rfl rfl
      · exact .rest hsilent rfl rfl

end Replay

end EventReplay
