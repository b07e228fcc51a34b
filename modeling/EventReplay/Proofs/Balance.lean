import EventReplay.Proofs.Transitions

/-!
# A replay keeps its books

`Replay.Balanced` ties a replay to the events that it has tracked: their hooks, the tracker and the
failures are kept as `Books` say, and the permits that the books count are those of the gate, but for
the one that the producer holds before an event is tracked. Every step keeps a replay balanced
(`Replay.Balanced.act`), whoever takes it.
-/

set_option autoImplicit false

namespace EventReplay

theorem Hook.onGate_of_ne {hook : Hook} (h : hook ≠ .release) (gate : Gate) :
    hook.onGate gate = gate := by
  cases hook with
  | release => exact absurd rfl h
  | _ => rfl

namespace Replay

variable {σ : Type}

/-- A replay that has tracked some events keeps books of them. -/
structure Balanced (r : Replay σ) (ds : List Dispatch) : Prop where
  coherent : Coherent r
  books : ∃ permits, r.gate.outstanding = permits + r.stage.permits ∧
    Books ds r.owed r.outcomeOf r.tracker r.tally.failed permits
  serves : r.gate.Serves (r.stage.call r.gate.capacity)
  known : ∀ d ∈ ds, d.handle < r.nextHandle
  untracked : ∀ d ∈ r.stage.untracked,
    d.handle < r.nextHandle ∧ d.handle ∉ ds.map Dispatch.handle ∧ r.owed d.handle = []
  hooking : ∀ event handle hooks, r.stage = .hooking event handle hooks → handle < r.nextHandle

/-! ## Telling and registering -/

theorem Stage.Registers.same {stage stage' : Stage} (h : Stage.Registers stage stage') :
    stage'.call = stage.call ∧ stage'.permits = stage.permits ∧
    stage'.untracked = stage.untracked ∧
    ∀ event handle hooks, stage' = .hooking event handle hooks →
      ∃ hooks', stage = .hooking event handle hooks' := by
  cases h with
  | none => exact ⟨rfl, rfl, rfl, fun _ _ hooks h => ⟨hooks, h⟩⟩
  | one event handle hook hooks =>
      refine ⟨rfl, rfl, rfl, ?_⟩
      rintro _ _ _ ⟨⟩
      exact ⟨_, rfl⟩

theorem Stage.Registers.untracked {stage stage' : Stage} (h : Stage.Registers stage stage') :
    stage'.untracked = stage.untracked := h.same.2.2.1

variable {r r' : Replay σ} {ds : List Dispatch}

/-- The books of a replay whose gate, tracker and failures change as a hook has it. -/
theorem Balanced.ran (h : Balanced r ds) {tellings : List Telling} {stage : Stage} {handle : Nat}
    {outcome : Outcome} {hook : Hook} {hooks : List Hook}
    (hregisters : Stage.Registers r.stage stage)
    (hcoherent : Coherent { r with tellings, stage }) (htold : r.outcomeOf handle = some outcome)
    (hhead : r.owed handle = hook :: hooks)
    (howed : owed { r with tellings, stage } = Function.update r.owed handle hooks) :
    Balanced (runHook { r with tellings, stage } outcome hook).1 ds := by
  obtain ⟨hcall, hpermits, huntracked, hhooking⟩ := hregisters.same
  obtain ⟨permits, hout, hbooks⟩ := h.books
  -- a hook that gives a unit back finds one that is out
  obtain ⟨hpos, hran⟩ := hbooks.run htold hhead
  rw [runHook_eq]
  have howed' : owed { r with
      tellings, stage
      tracker := hook.onTracker r.tracker
      gate := hook.onGate r.gate
      tally := { r.tally with failed := r.tally.failed + hook.failures outcome }
      metrics := hook.onMetrics outcome r.metrics } = Function.update r.owed handle hooks := howed
  refine ⟨⟨hcoherent.linked, hcoherent.known⟩, ?_, ?_, h.known, ?_, ?_⟩
  · refine ⟨if hook = .release then permits - 1 else permits, ?_, ?_⟩
    · show (hook.onGate r.gate).outstanding = _ + stage.permits
      rw [hpermits]
      split
      · rename_i hrelease
        subst hrelease
        have := hpos rfl
        show r.gate.outstanding - 1 = _
        omega
      · rename_i hrelease
        rw [Hook.onGate_of_ne hrelease, hout]
    · rw [howed']
      exact hran
  · show Gate.Serves (hook.onGate r.gate) (stage.call (hook.onGate r.gate).capacity)
    rw [hcall]
    by_cases hrelease : hook = .release
    · subst hrelease
      have := hpos rfl
      exact h.serves.release (by omega)
    · rw [Hook.onGate_of_ne hrelease]
      exact h.serves
  · intro d hd
    obtain ⟨hlt, hnew, hnone⟩ := h.untracked d (huntracked ▸ hd)
    refine ⟨hlt, hnew, ?_⟩
    -- an event that is not tracked yet has no hooks that could run
    have hne : d.handle ≠ handle := by
      rintro rfl
      simp [hnone] at hhead
    rw [howed', Function.update_of_ne hne]
    exact hnone
  · intro event handle hooks heq
    obtain ⟨hooks', heq'⟩ := hhooking event handle hooks heq
    exact h.hooking event handle hooks' heq'

theorem Balanced.turn (h : Balanced r ds) (ht : Turn r r') : Balanced r' ds := by
  cases ht with
  | quiet completions tellings stage heq hregisters hcoherent howed houtcomes =>
      obtain ⟨hcall, hpermits, huntracked, hhooking⟩ := hregisters.same
      obtain ⟨permits, hout, hbooks⟩ := h.books
      subst heq
      refine ⟨hcoherent, ⟨permits, ?_, ?_⟩, ?_, h.known, ?_, ?_⟩
      · rw [hpermits]
        exact hout
      · rw [howed]
        exact hbooks.tell houtcomes
      · rw [hcall]
        exact h.serves
      · rw [huntracked, howed]
        exact h.untracked
      · intro event handle hooks heq
        obtain ⟨hooks', heq'⟩ := hhooking event handle hooks heq
        exact h.hooking event handle hooks' heq'
  | ran tellings stage handle outcome hook hooks heq hregisters hcoherent htold hhead howed =>
      subst heq
      exact h.ran hregisters hcoherent htold hhead howed

/-! ## Steps of the producer -/

/-- A step that leaves hooks, times and failures alone keeps the books, whatever it does at the gate. -/
theorem Balanced.pass (h : Balanced r ds) (hcompletions : r'.completions = r.completions)
    (htellings : r'.tellings = r.tellings) (hnext : r'.nextHandle = r.nextHandle)
    (htimes : Tracker.SameTimes r.tracker r'.tracker) (hfailed : r'.tally.failed = r.tally.failed)
    (hunregistered : r'.stage.unregistered = r.stage.unregistered)
    (hserves : r'.gate.Serves (r'.stage.call r'.gate.capacity))
    (hout : r'.gate.outstanding + r.stage.permits = r.gate.outstanding + r'.stage.permits)
    (huntracked : r'.stage.untracked = [])
    (hhooking : r'.stage.isHooking = false) : Balanced r' ds := by
  have hcompletion : r'.completion? = r.completion? := by
    funext i
    simp only [completion?, hcompletions]
  have htelling : r'.telling? = r.telling? := by
    funext i
    simp only [telling?, htellings]
  have houtcome : r'.outcomeOf = r.outcomeOf := by
    funext i
    simp only [outcomeOf, hcompletion]
  have howed : r'.owed = r.owed := by
    funext i
    simp only [owed, queued, hcompletion, htelling, hunregistered]
  obtain ⟨permits, hpermits, hbooks⟩ := h.books
  refine ⟨⟨?_, ?_⟩, ⟨permits, by omega, ?_⟩, hserves, ?_, ?_, ?_⟩
  · rw [hcompletion, htelling]
    exact h.coherent.linked
  · rw [hcompletion, hnext]
    exact h.coherent.known
  · rw [howed, houtcome, hfailed]
    exact hbooks.sameTimes htimes
  · rw [hnext]
    exact h.known
  · simp [huntracked]
  · intro event handle hooks heq
    rw [heq] at hhooking
    simp [Stage.isHooking] at hhooking

/-- A marker is no event: its hooks only note. -/
theorem Balanced.marked {marker : Option Watermark} (h : Balanced r ds) (hm : Marked r r' marker)
    (huntracked : r.stage.untracked = []) : Balanced r' ds := by
  obtain ⟨permits, hpermits, hbooks⟩ := h.books
  refine ⟨hm.coherent, ⟨permits, ?_, ?_⟩, ?_, ?_, ?_, ?_⟩
  · rw [hm.gate, hm.stage, hpermits]
  · rw [hm.tracker, hm.tally]
    refine hbooks.congr ?_ ?_ ?_
    · intro d hd
      exact hm.owed _ (h.known d hd)
    · intro d hd
      rw [hm.outcomes]
    · intro i hi hook hmem
      exact (hm.notes i hook hmem).elim (hbooks.notes i hi hook) id
  · rw [hm.gate, hm.stage]
    exact h.serves
  · intro d hd
    exact Nat.lt_of_lt_of_le (h.known d hd) hm.nextHandle
  · simp [hm.stage, huntracked]
  · intro event handle hooks heq
    exact Nat.lt_of_lt_of_le (h.hooking event handle hooks (hm.stage ▸ heq)) hm.nextHandle

/-- A stage at which the producer holds nothing and waits for nothing. -/
structure Stage.Idle (stage : Stage) : Prop where
  call : ∀ capacity, stage.call capacity = none
  permits : stage.permits = 0
  unregistered : stage.unregistered = fun _ => []
  untracked : stage.untracked = []
  hooking : stage.isHooking = false

theorem Stage.idle_pulling : Stage.Idle .pulling := ⟨fun _ => rfl, rfl, rfl, rfl, rfl⟩

theorem Stage.idle_observing (next : Option Event) : Stage.Idle (.observing next) :=
  ⟨fun _ => rfl, rfl, rfl, rfl, rfl⟩

theorem Stage.idle_reporting (next : Option Event) (now : Int) (horizon : Option Int) :
    Stage.Idle (.reporting next now horizon) := ⟨fun _ => rfl, rfl, rfl, rfl, rfl⟩

theorem Stage.idle_closing : Stage.Idle .closing := ⟨fun _ => rfl, rfl, rfl, rfl, rfl⟩

theorem Stage.idle_flushing : Stage.Idle .flushing := ⟨fun _ => rfl, rfl, rfl, rfl, rfl⟩

theorem Stage.idle_ended (result : Except ReplayFault ReplayReport) : Stage.Idle (.ended result) :=
  ⟨fun _ => rfl, rfl, rfl, rfl, rfl⟩

/-- The producer goes from one such stage to another, and leaves the gate alone. -/
theorem Balanced.idle (h : Balanced r ds) (hidle : Stage.Idle r.stage) (hidle' : Stage.Idle r'.stage)
    (hcompletions : r'.completions = r.completions) (htellings : r'.tellings = r.tellings)
    (hnext : r'.nextHandle = r.nextHandle) (htimes : Tracker.SameTimes r.tracker r'.tracker)
    (hfailed : r'.tally.failed = r.tally.failed) (hgate : r'.gate = r.gate) : Balanced r' ds := by
  have hserves := h.serves
  rw [hidle.call] at hserves
  refine h.pass hcompletions htellings hnext htimes hfailed ?_ ?_ ?_ hidle'.untracked hidle'.hooking
  · rw [hidle'.unregistered, hidle.unregistered]
  · rw [hidle'.call, hgate]
    exact hserves
  · rw [hgate, hidle.permits, hidle'.permits]

/-- A value is settled, or none, and a marker is broadcast, if there is one. -/
theorem Balanced.emit (h : Balanced r ds) {tracker : Tracker} {now : Int} {settled : Option Int}
    {marker : Option Watermark} (he : Tracker.Emission r.tracker tracker now settled marker)
    {marked : Replay σ} (hm : Marked { r with tracker } marked marker) (hidle : Stage.Idle r.stage)
    {stage : Stage} (hidle' : Stage.Idle stage) : Balanced { marked with stage } ds := by
  have htracker : Balanced { r with tracker } ds := h.idle hidle hidle rfl rfl rfl he.same rfl rfl
  have hstage : marked.stage = r.stage := hm.stage
  have hmarked : Balanced marked ds := htracker.marked hm hidle.untracked
  exact hmarked.idle (hstage ▸ hidle) hidle' rfl rfl rfl (.refl _) rfl rfl

/-- The sink is handed an event under a new handle. -/
theorem Balanced.hand (h : Balanced r ds) {event : Event} (hstage : r.stage = .holding event)
    (outbound : Int) :
    Balanced { r.openHandles 1 with stage := .tracking event r.nextHandle outbound } ds := by
  obtain ⟨permits, hpermits, hbooks⟩ := h.books
  have hcoherent := h.coherent.openHandles 1
  -- a new handle has no hooks, and the producer is not about to register any yet
  have howed : owed { r.openHandles 1 with stage := .tracking event r.nextHandle outbound } =
      r.owed := by
    rw [← h.coherent.owed_openHandles 1]
    funext i
    show (r.openHandles 1).queued i ++ [] = (r.openHandles 1).queued i ++ r.stage.unregistered i
    rw [hstage]
    rfl
  have hout : outcomeOf { r.openHandles 1 with stage := .tracking event r.nextHandle outbound } =
      r.outcomeOf := h.coherent.outcomeOf_openHandles 1
  have hnew : r.nextHandle ∉ ds.map Dispatch.handle := by
    intro hmem
    obtain ⟨d, hd, heq⟩ := List.mem_map.mp hmem
    exact absurd (h.known d hd) (by omega)
  have hnone : r.owed r.nextHandle = [] := by
    simp [owed, h.coherent.queued_of_unknown (Nat.le_refl _), hstage, Stage.unregistered]
  rw [hstage] at hpermits
  refine ⟨⟨hcoherent.linked, hcoherent.known⟩, ⟨permits, hpermits, ?_⟩, ?_, ?_, ?_, ?_⟩
  · rw [howed, hout]
    exact hbooks
  · have hserves := h.serves
    rw [hstage] at hserves
    exact hserves
  · intro d hd
    exact Nat.lt_succ_of_lt (h.known d hd)
  · intro d hd
    obtain rfl := List.mem_singleton.mp hd
    exact ⟨Nat.lt_succ_self _, hnew, by rw [howed]; exact hnone⟩
  · intro _ _ _ heq
    cases heq

/-- The event that the sink has been handed is tracked. -/
theorem Balanced.track (h : Balanced r ds) {event : Event} {handle : Nat} {outbound : Int}
    (hstage : r.stage = .tracking event handle outbound) :
    Balanced { r with
        tracker := r.tracker.track outbound
        stage := .hooking event handle (Dispatch.hooks ⟨handle, event, outbound⟩) }
      (ds ++ [⟨handle, event, outbound⟩]) := by
  obtain ⟨permits, hpermits, hbooks⟩ := h.books
  have huntracked := h.untracked
  have hserves := h.serves
  rw [hstage] at hpermits huntracked hserves
  -- the handle is new to the books, and no hook is on it
  obtain ⟨hlt, hnew, hnone⟩ := huntracked _ (.head _)
  have howed : owed { r with
        tracker := r.tracker.track outbound
        stage := .hooking event handle (Dispatch.hooks ⟨handle, event, outbound⟩) } =
      Function.update r.owed handle (Dispatch.hooks ⟨handle, event, outbound⟩) := by
    funext i
    show r.queued i ++ _ = _
    rw [unregistered_hooking, Function.update_apply, Function.update_apply]
    simp only [owed, hstage, Stage.unregistered, List.append_nil] at hnone ⊢
    split
    · rename_i hi
      rw [hi, hnone, List.nil_append]
    · simp
  refine ⟨⟨h.coherent.linked, h.coherent.known⟩, ⟨permits + 1, hpermits, ?_⟩, hserves, ?_, ?_, ?_⟩
  · exact hbooks.enter hnew howed
  · intro d hd
    rcases List.mem_append.mp hd with hd | hd
    · exact h.known d hd
    · obtain rfl := List.mem_singleton.mp hd
      exact hlt
  · simp [Stage.untracked]
  · rintro _ _ _ ⟨⟩
    exact hlt

/-! ## Every step -/

variable [EventSource σ]

theorem Balanced.transition (h : Balanced r ds) (action : ReplayAction) :
    Transition r action (r.act action).1 (r.act action).2 :=
  Replay.transition h.coherent h.serves h.hooking action

theorem Balanced.transit (h : Balanced r ds) {action : ReplayAction} {effects : List Effect}
    (ht : Transition r action r' effects) : Balanced r' (ds ++ r.tracks action) := by
  have hsame := Tracker.SameTimes.refl r.tracker
  cases ht with
  | rest hsilent heq =>
      rw [hsilent.tracks, List.append_nil, heq]
      exact h
  | turn hsilent hturn =>
      rw [hsilent.tracks, List.append_nil]
      exact h.turn hturn
  | move gate tally lag statistics metrics nextTicket stage hsilent hgoes heq hserves' hpermits
      hfailed =>
      subst heq
      rw [hsilent.tracks, List.append_nil]
      exact h.pass rfl rfl rfl hsame hfailed hgoes.unregistered hserves' hpermits hgoes.untracked.2
        hgoes.isHooking
  | hand moment event hproduce hstage heq =>
      subst hproduce heq
      simp only [tracks, hstage, Stage.untracked, List.append_nil]
      exact h.hand hstage _
  | track moment event handle outbound hproduce hstage heq =>
      subst hproduce heq
      simp only [tracks, hstage, Stage.untracked]
      exact h.track hstage
  | pull stage' hsilent hstage hanswer heq =>
      subst heq
      have hidle : Stage.Idle r.stage := hstage ▸ Stage.idle_pulling
      rw [hsilent.tracks, List.append_nil]
      rcases hanswer with ⟨next, -, rfl⟩ | ⟨fault, -, rfl⟩
      · exact h.idle hidle (Stage.idle_observing next) rfl rfl rfl hsame rfl rfl
      · exact h.idle hidle (Stage.idle_ended _) rfl rfl rfl hsame rfl rfl
  | observe moment next tracker marked hproduce hstage hemission hmarked heq =>
      subst hproduce heq
      simp only [tracks, hstage, Stage.untracked, List.append_nil]
      exact h.emit hemission hmarked (hstage ▸ Stage.idle_observing next) (Stage.idle_reporting ..)
  | report moment next now horizon gate statistics metrics nextTicket stage' line notices hproduce hstage
      hgoes heq hserves' hout =>
      subst hproduce heq
      have hsettle : Tracker.SameTimes r.tracker (r.tracker.settle horizon).2 := ⟨rfl, rfl, rfl, rfl⟩
      have hunregistered : r.stage.unregistered = fun _ => [] := by rw [hstage]; rfl
      have hpermits : r.stage.permits = 0 := by rw [hstage]; rfl
      simp only [tracks, hstage, Stage.untracked, List.append_nil]
      rcases hgoes with ⟨event, -, rfl⟩ | ⟨-, ticket, rfl⟩
      · exact h.pass rfl rfl rfl hsettle rfl hunregistered.symm hserves' (by rw [hpermits]; exact hout)
          rfl rfl
      · exact h.pass rfl rfl rfl hsettle rfl hunregistered.symm hserves' (by rw [hpermits]; exact hout)
          rfl rfl
  -- the call for all units is answered, and they go back
  | drain ticket hsilent hstage hready heq =>
      subst heq
      have hunregistered : r.stage.unregistered = fun _ => [] := by rw [hstage]; rfl
      have hpermits : r.stage.permits = 0 := by rw [hstage]; rfl
      have hserves := h.serves
      rw [hstage] at hserves
      rw [hsilent.tracks, List.append_nil]
      exact h.pass rfl rfl rfl hsame rfl hunregistered.symm (hserves.withdraw hready)
        (by rw [hpermits]; rfl) rfl rfl
  | close moment tracker marked hproduce hstage hemission hmarked heq =>
      subst hproduce heq
      simp only [tracks, hstage, Stage.untracked, List.append_nil]
      exact h.emit hemission hmarked (hstage ▸ Stage.idle_closing) Stage.idle_flushing
  | finish moment metrics hsilent hflushed hstage heq =>
      subst heq
      have hidle : Stage.Idle r.stage := hstage ▸ Stage.idle_flushing
      rw [hsilent.tracks, List.append_nil]
      exact h.idle hidle (Stage.idle_ended _) rfl rfl rfl hsame rfl rfl

/-- Whatever step comes next, the books are kept. -/
theorem Balanced.act (h : Balanced r ds) (action : ReplayAction) :
    Balanced (r.act action).1 (ds ++ r.tracks action) :=
  h.transit (h.transition action)

/-! ## Whole schedules -/

/-- The events that a schedule tracks, in order. -/
def tracked (r : Replay σ) : List ReplayAction → List Dispatch
  | [] => []
  | action :: actions => r.tracks action ++ (r.act action).1.tracked actions

theorem Balanced.follow (h : Balanced r ds) (actions : List ReplayAction) :
    Balanced (r.follow actions).1 (ds ++ r.tracked actions) := by
  induction actions generalizing r ds with
  | nil => simpa [Replay.follow, tracked] using h
  | cons action actions ih => simpa [Replay.follow, tracked] using ih (h.act action)

/-- A replay that starts has empty books. -/
theorem balanced_ofSource (plan : ReplayPlan) (metrics : Option ReplayMetrics) (shards : Nat)
    (moment : Moment) (source : σ) :
    Balanced (ofSource plan metrics shards moment source).1 [] := by
  have hempty : Books [] (fun _ => []) (fun _ => none)
      (.startingAt plan.watermark moment.now) 0 0 := .empty _ _ (by simp)
  have hgate := Gate.serves_ofCapacity plan.maxOutstanding
  unfold ofSource
  dsimp only
  split <;>
    exact ⟨⟨fun h => .unknown, by simp [completion?]⟩, ⟨0, rfl, hempty⟩, hgate, by simp,
      by simp [Stage.untracked], by simp⟩

end Replay

end EventReplay
