import EventReplay.Completion.Basic
import EventReplay.Proofs.OneOfMany
import EventReplay.Proofs.OpenTimes

/-!
# A tracker on many threads

Any number of threads call a tracker to track a dispatch, and others tell the outcomes of the dispatches,
all of them stopping and going on between any two of their steps. A call counts the time of its dispatch
in and then registers a callback on the dispatch's handle, which completes the time; where the outcome has
been told and all rounds are over, the call runs the callback itself. A handle can be tracked many times,
and others register callbacks of their own on it.

Whatever happens next is one of a few steps (`TrackerStep`, `TrackerSession.step_act`). In each of them a
time is counted in, a time is completed, or the callbacks that are still to run only change their places
(`TrackerMove`, `TrackerSession.move_step`).
-/

set_option autoImplicit false

namespace EventReplay

/-! ## Threads -/

/-- A callback on the outcome of a dispatch. -/
inductive TrackerHook where
  /-- The tracker's own: it completes the time that a call has counted in. -/
  | settle (call : Nat) (time : Int)
  /-- One that leaves the tracker alone. -/
  | other
deriving DecidableEq, Repr

/-- What has become of the outcome of a dispatch. -/
structure TrackerHandle where
  completion : Completion TrackerHook := .fresh
  /-- The callbacks of the round that is running, without those that have run. -/
  round : List TrackerHook := []
deriving DecidableEq, Repr

/-- What a call to track a dispatch is about to do. -/
inductive TrackStage where
  /-- To count the time in. -/
  | called
  /-- To register the callback. -/
  | counted
  /-- To run the callback at once. -/
  | passed
  /-- Nothing. -/
  | returned
deriving DecidableEq, Repr

/-- A call to track a dispatch with some outbound time. -/
structure TrackCall where
  number : Nat
  handle : Nat
  time : Int
  stage : TrackStage := .called
deriving DecidableEq, Repr

/-- A tracker, the dispatches and the calls to track them. -/
structure TrackerSession where
  tracker : Tracker
  handles : List TrackerHandle := []
  /-- The calls in order, each numbered by its place. -/
  calls : List TrackCall := []
  /-- The calls whose callbacks have run, and the times that these have completed. -/
  completed : List (Nat × Int) := []

/-- What happens next. -/
inductive TrackerAction where
  /-- A dispatch begins. -/
  | dispatch
  /-- A dispatch has its outcome from the start. -/
  | refuse (outcome : Outcome)
  /-- A thread comes to track a dispatch. -/
  | track (handle : Nat) (time : Int)
  /-- The thread of a call takes a step. -/
  | stepCall (n : Nat)
  /-- Another callback is registered. -/
  | register (handle : Nat)
  /-- The outcome of a dispatch begins to be told. -/
  | tell (handle : Nat) (outcome : Outcome)
  /-- The one who tells the outcome of a dispatch takes a step. -/
  | stepTeller (handle : Nat)
  | settle (horizon : Option Int)
  | maybeEmit (now : Int) (horizon : Option Int)
  | emitNow (now : Int) (horizon : Option Int)
deriving Repr

namespace TrackerSession

/-- A callback runs. -/
def runHook (s : TrackerSession) : TrackerHook → TrackerSession
  | .settle call time =>
    { s with tracker := s.tracker.complete time, completed := s.completed ++ [(call, time)] }
  | .other => s

/-- The thread of a call takes a step. -/
def stepCall (s : TrackerSession) (n : Nat) : TrackerSession :=
  match s.calls[n]? with
  | none => s
  | some call =>
    match call.stage with
    | .called =>
      { s with
        tracker := s.tracker.track call.time
        calls := s.calls.set n { call with stage := .counted } }
    | .counted =>
      match s.handles[call.handle]? with
      | none => s
      | some handle =>
        match handle.completion.register (.settle call.number call.time) with
        | (completion, none) =>
          { s with
            handles := s.handles.set call.handle { handle with completion }
            calls := s.calls.set n { call with stage := .returned } }
        | (completion, some _) =>
          { s with
            handles := s.handles.set call.handle { handle with completion }
            calls := s.calls.set n { call with stage := .passed } }
    | .passed =>
      { s with calls := s.calls.set n { call with stage := .returned } }.runHook
        (.settle call.number call.time)
    | .returned => s

/-- Another callback is registered. Where it runs at once, nothing comes of it here. -/
def register (s : TrackerSession) (n : Nat) : TrackerSession :=
  match s.handles[n]? with
  | none => s
  | some handle =>
    { s with
      handles := s.handles.set n
        { handle with completion := (handle.completion.register .other).1 } }

/-- The outcome of a dispatch begins to be told, unless it has been told. -/
def tell (s : TrackerSession) (n : Nat) (outcome : Outcome) : TrackerSession :=
  match s.handles[n]? with
  | none => s
  | some handle =>
    match handle.completion.tell outcome with
    | none => s
    | some (round, completion) => { s with handles := s.handles.set n ⟨completion, round⟩ }

/-- The one who tells the outcome of a dispatch runs the next callback of the round, or ends it. -/
def stepTeller (s : TrackerSession) (n : Nat) : TrackerSession :=
  match s.handles[n]? with
  | none => s
  | some handle =>
    match handle.round with
    | hook :: round => { s with handles := s.handles.set n { handle with round } }.runHook hook
    | [] =>
      let (round, completion) := handle.completion.nextRound
      { s with handles := s.handles.set n ⟨completion, round⟩ }

/-- What happens next happens. -/
def act (s : TrackerSession) : TrackerAction → TrackerSession
  | .dispatch => { s with handles := s.handles ++ [{}] }
  | .refuse outcome => { s with handles := s.handles ++ [{ completion := .resolved outcome }] }
  | .track handle time =>
    if handle < s.handles.length then
      { s with calls := s.calls ++ [{ number := s.calls.length, handle, time }] }
    else s
  | .stepCall n => s.stepCall n
  | .register handle => s.register handle
  | .tell handle outcome => s.tell handle outcome
  | .stepTeller handle => s.stepTeller handle
  | .settle horizon => { s with tracker := (s.tracker.settle horizon).2 }
  | .maybeEmit now horizon => { s with tracker := (s.tracker.maybeEmit now horizon).2 }
  | .emitNow now horizon => { s with tracker := (s.tracker.emitNow now horizon).2 }

/-- A fresh tracker after everything in a schedule has happened. -/
def run (config : WatermarkConfig) (start : Int) (schedule : List TrackerAction) : TrackerSession :=
  schedule.foldl act { tracker := .startingAt config start }

end TrackerSession

/-! ## Callbacks and where they are -/

/-- The call that a callback belongs to, and its time. -/
def TrackerHook.call? : TrackerHook → Option (Nat × Int)
  | settle call time => some (call, time)
  | other => none

/-- The tracker's callbacks that are to run when the outcome is told, or as it is being told. -/
def TrackerHandle.waiting (handle : TrackerHandle) : List (Nat × Int) :=
  (handle.round ++ handle.completion.kept).filterMap TrackerHook.call?

namespace TrackCall

/-- The call and its time, once the time has been counted in. -/
def tracked (call : TrackCall) : List (Nat × Int) :=
  match call.stage with
  | .called => []
  | .counted | .passed | .returned => [(call.number, call.time)]

/-- The call and its time, as long as its callback is still to be registered or to be run at once. -/
def hooks (call : TrackCall) : List (Nat × Int) :=
  match call.stage with
  | .counted | .passed => [(call.number, call.time)]
  | .called | .returned => []

end TrackCall

namespace TrackerSession

/-- The calls that have counted their times in. -/
def tracked (s : TrackerSession) : List (Nat × Int) := s.calls.flatMap TrackCall.tracked

/-- The calls of which the callbacks are still to run. -/
def waiting (s : TrackerSession) : List (Nat × Int) :=
  s.calls.flatMap TrackCall.hooks ++ s.handles.flatMap TrackerHandle.waiting

end TrackerSession

namespace TrackerHandle

/-- No round is running but while the outcome is being told. -/
def Settled (handle : TrackerHandle) : Prop :=
  handle.round = [] ∨ ∃ outcome late, handle.completion = .draining outcome late

theorem waiting_register_other (handle : TrackerHandle) :
    { handle with completion := (handle.completion.register TrackerHook.other).1 }.waiting =
      handle.waiting := by
  cases hc : handle.completion <;>
    simp [waiting, hc, Completion.register, Completion.kept, TrackerHook.call?]

/-- A callback that is registered before the last round is over waits behind all others. -/
theorem waiting_register {handle : TrackerHandle} {completion : Completion TrackerHook} {call : Nat}
    {time : Int}
    (h : handle.completion.register (.settle call time) = (completion, none)) :
    { handle with completion }.waiting = handle.waiting ++ [(call, time)] := by
  cases hc : handle.completion with
  | resolved outcome => simp [hc, Completion.register] at h
  | pending hooks | draining outcome hooks =>
    simp only [hc, Completion.register, Prod.mk.injEq, and_true] at h
    subst h
    simp [waiting, hc, Completion.kept, TrackerHook.call?]

/-- A callback that is registered after the last round leaves the handle as it is. -/
theorem completion_register {handle : TrackerHandle} {completion : Completion TrackerHook}
    {hook : TrackerHook} {outcome : Outcome}
    (h : handle.completion.register hook = (completion, some outcome)) :
    completion = handle.completion := by
  cases hc : handle.completion with
  | pending hooks | draining o hooks => simp [hc, Completion.register] at h
  | resolved o =>
    simp only [hc, Completion.register, Prod.mk.injEq] at h
    exact h.1.symm

/-- The first callback of a round goes ahead of all others. -/
theorem waiting_cons {handle : TrackerHandle} {hook : TrackerHook} {round : List TrackerHook}
    (hround : handle.round = hook :: round) :
    handle.waiting = hook.call?.toList ++ { handle with round }.waiting := by
  cases hook <;> simp [waiting, hround, List.filterMap_cons, TrackerHook.call?]

/-- The outcome that is told makes the first round of what has waited. -/
theorem waiting_tell {handle : TrackerHandle} {completion : Completion TrackerHook}
    {outcome : Outcome} {round : List TrackerHook} (hsettled : handle.Settled)
    (h : handle.completion.tell outcome = some (round, completion)) :
    (⟨completion, round⟩ : TrackerHandle).waiting = handle.waiting := by
  cases hc : handle.completion with
  | draining o late | resolved o => simp [hc, Completion.tell] at h
  | pending hooks =>
    have hround : handle.round = [] := by simpa [Settled, hc] using hsettled
    simp only [hc, Completion.tell, Option.some.injEq, Prod.mk.injEq] at h
    obtain ⟨rfl, rfl⟩ := h
    simp [waiting, hc, hround, Completion.kept]

/-- The next round is made of what was registered during the last one. -/
theorem waiting_nextRound {handle : TrackerHandle} (hround : handle.round = []) :
    (⟨handle.completion.nextRound.2, handle.completion.nextRound.1⟩ : TrackerHandle).waiting =
      handle.waiting := by
  cases hc : handle.completion with
  | pending hooks | resolved outcome =>
    simp [waiting, hc, hround, Completion.nextRound, Completion.kept]
  | draining outcome late =>
    cases late <;> simp [waiting, hc, hround, Completion.nextRound, Completion.kept]

variable {handle : TrackerHandle}

theorem Settled.register (h : handle.Settled) (hook : TrackerHook) :
    { handle with completion := (handle.completion.register hook).1 }.Settled := by
  rcases h with hround | ⟨outcome, late, hc⟩
  · exact .inl hround
  · exact .inr ⟨outcome, late ++ [hook], by rw [hc]; rfl⟩

theorem settled_tell {completion : Completion TrackerHook} {outcome : Outcome}
    {round : List TrackerHook} (h : handle.completion.tell outcome = some (round, completion)) :
    (⟨completion, round⟩ : TrackerHandle).Settled := by
  cases hc : handle.completion with
  | draining o late | resolved o => simp [hc, Completion.tell] at h
  | pending hooks =>
    simp only [hc, Completion.tell, Option.some.injEq, Prod.mk.injEq] at h
    exact .inr ⟨outcome, [], h.2.symm⟩

theorem Settled.hook {hook : TrackerHook} {round : List TrackerHook} (h : handle.Settled)
    (hround : handle.round = hook :: round) : { handle with round }.Settled := by
  rcases h with hnone | hdraining
  · rw [hround] at hnone
    cases hnone
  · exact .inr hdraining

theorem settled_nextRound (handle : TrackerHandle) :
    (⟨handle.completion.nextRound.2, handle.completion.nextRound.1⟩ : TrackerHandle).Settled := by
  cases hc : handle.completion with
  | pending hooks | resolved outcome => exact .inl rfl
  | draining outcome late =>
    cases late with
    | nil => exact .inl rfl
    | cons hook late => exact .inr ⟨outcome, [], rfl⟩

end TrackerHandle

/-! ## What can happen -/

/-- What a step does to the tracker, the handles and the calls. -/
inductive TrackerStep (s : TrackerSession) : TrackerSession → Prop
  | rest : TrackerStep s s
  | look (tracker : Tracker) (same : Tracker.SameTimes s.tracker tracker) :
      TrackerStep s { s with tracker }
  | begin (handle : TrackerHandle) (hround : handle.round = []) (hkept : handle.completion.kept = []) :
      TrackerStep s { s with handles := s.handles ++ [handle] }
  | call (handle : Nat) (time : Int) :
      TrackerStep s { s with calls := s.calls ++ [{ number := s.calls.length, handle, time }] }
  | count (n number handle : Nat) (time : Int)
      (hcall : s.calls[n]? = some ⟨number, handle, time, .called⟩) :
      TrackerStep s { s with
        tracker := s.tracker.track time
        calls := s.calls.set n ⟨number, handle, time, .counted⟩ }
  /-- The callback of a call waits on the handle. -/
  | wait (n number m : Nat) (time : Int) (handle : TrackerHandle) (completion : Completion TrackerHook)
      (hcall : s.calls[n]? = some ⟨number, m, time, .counted⟩) (hhandle : s.handles[m]? = some handle)
      (hregister : handle.completion.register (.settle number time) = (completion, none)) :
      TrackerStep s { s with
        handles := s.handles.set m { handle with completion }
        calls := s.calls.set n ⟨number, m, time, .returned⟩ }
  /-- A call is to run the callback itself. -/
  | pass (n number handle : Nat) (time : Int)
      (hcall : s.calls[n]? = some ⟨number, handle, time, .counted⟩) :
      TrackerStep s { s with calls := s.calls.set n ⟨number, handle, time, .passed⟩ }
  | atOnce (n number handle : Nat) (time : Int)
      (hcall : s.calls[n]? = some ⟨number, handle, time, .passed⟩) :
      TrackerStep s ({ s with calls := s.calls.set n ⟨number, handle, time, .returned⟩ }.runHook
        (.settle number time))
  /-- One handle changes, and the tracker's callbacks on it stay as they are. -/
  | shift (n : Nat) (handle handle' : TrackerHandle) (hhandle : s.handles[n]? = some handle)
      (hwaiting : handle'.waiting = handle.waiting) (hsettled : handle'.Settled) :
      TrackerStep s { s with handles := s.handles.set n handle' }
  | hook (n : Nat) (handle : TrackerHandle) (hook : TrackerHook) (round : List TrackerHook)
      (hhandle : s.handles[n]? = some handle) (hround : handle.round = hook :: round) :
      TrackerStep s ({ s with handles := s.handles.set n { handle with round } }.runHook hook)

namespace TrackerSession

/-- Every handle runs a round only while its outcome is being told. -/
def Settled (s : TrackerSession) : Prop := ∀ handle ∈ s.handles, handle.Settled

variable {s s' : TrackerSession}

theorem step_stepCall (s : TrackerSession) (n : Nat) : TrackerStep s (s.stepCall n) := by
  unfold stepCall
  cases hcall : s.calls[n]? with
  | none => exact .rest
  | some call =>
    obtain ⟨number, m, time, stage⟩ := call
    cases stage with
    | called => exact .count n number m time hcall
    | counted =>
      cases hhandle : s.handles[m]? with
      | none => simpa only [hhandle] using TrackerStep.rest
      | some handle =>
        cases hregister : handle.completion.register (.settle number time) with
        | mk completion told =>
          cases told with
          | none =>
            simpa only [hhandle, hregister] using
              TrackerStep.wait n number m time handle completion hcall hhandle hregister
          | some outcome =>
            obtain ⟨hlt, hget⟩ := List.getElem?_eq_some_iff.mp hhandle
            have hsame : s.handles.set m { handle with completion } = s.handles := by
              rw [TrackerHandle.completion_register hregister, ← hget]
              exact List.set_getElem_self hlt
            simpa only [hhandle, hregister, hsame] using TrackerStep.pass n number m time hcall
    | passed => exact .atOnce n number m time hcall
    | returned => exact .rest

theorem step_register (hsettled : s.Settled) (n : Nat) : TrackerStep s (s.register n) := by
  unfold register
  cases hhandle : s.handles[n]? with
  | none => exact .rest
  | some handle =>
    exact .shift n handle _ hhandle handle.waiting_register_other
      ((hsettled handle (List.mem_of_getElem? hhandle)).register .other)

theorem step_tell (hsettled : s.Settled) (n : Nat) (outcome : Outcome) :
    TrackerStep s (s.tell n outcome) := by
  unfold tell
  cases hhandle : s.handles[n]? with
  | none => exact .rest
  | some handle =>
    cases htell : handle.completion.tell outcome with
    | none => simpa only [htell] using TrackerStep.rest
    | some told =>
      obtain ⟨round, completion⟩ := told
      have hrests := hsettled handle (List.mem_of_getElem? hhandle)
      simpa only [htell] using TrackerStep.shift n handle _ hhandle
        (TrackerHandle.waiting_tell hrests htell) (TrackerHandle.settled_tell htell)

theorem step_stepTeller (s : TrackerSession) (n : Nat) : TrackerStep s (s.stepTeller n) := by
  unfold stepTeller
  cases hhandle : s.handles[n]? with
  | none => exact .rest
  | some handle =>
    cases hround : handle.round with
    | nil =>
      simpa only [hround] using TrackerStep.shift n handle _ hhandle
        (TrackerHandle.waiting_nextRound hround) handle.settled_nextRound
    | cons hook round => simpa only [hround] using TrackerStep.hook n handle hook round hhandle hround

/-- Whatever happens next is one of the steps. -/
theorem step_act (hsettled : s.Settled) (action : TrackerAction) : TrackerStep s (s.act action) := by
  cases action with
  | dispatch => exact .begin _ rfl rfl
  | refuse outcome => exact .begin _ rfl rfl
  | track handle time =>
    rw [act]
    by_cases hhandle : handle < s.handles.length
    · rw [if_pos hhandle]
      exact .call handle time
    · rw [if_neg hhandle]
      exact .rest
  | stepCall n => exact s.step_stepCall n
  | register handle => exact step_register hsettled handle
  | tell handle outcome => exact step_tell hsettled handle outcome
  | stepTeller handle => exact s.step_stepTeller handle
  | settle horizon => exact .look _ ⟨rfl, rfl, rfl, rfl⟩
  | maybeEmit now horizon => exact .look _ (s.tracker.maybeEmit_spec now horizon).same
  | emitNow now horizon => exact .look _ (s.tracker.emitNow_spec now horizon).same

end TrackerSession

/-! ## What becomes of the times -/

/-- What a step makes of the times, as far as calls, callbacks and the tracker have come. -/
inductive TrackerMove (s s' : TrackerSession) : Prop
  | keep (tracker : Tracker.SameTimes s.tracker s'.tracker) (tracked : s'.tracked.Perm s.tracked)
      (waiting : s'.waiting.Perm s.waiting) (completed : s'.completed = s.completed)
  | count (entry : Nat × Int) (tracker : s'.tracker = s.tracker.track entry.2)
      (tracked : s'.tracked.Perm (entry :: s.tracked))
      (waiting : s'.waiting.Perm (entry :: s.waiting)) (completed : s'.completed = s.completed)
  | complete (entry : Nat × Int) (tracker : s'.tracker = s.tracker.complete entry.2)
      (tracked : s'.tracked.Perm s.tracked) (waiting : s.waiting.Perm (entry :: s'.waiting))
      (completed : s'.completed = s.completed ++ [entry])

namespace TrackerSession

variable {s s' : TrackerSession}

/-- A callback that was waiting runs. -/
theorem move_runHook (hook : TrackerHook) (htracker : s'.tracker = s.tracker)
    (htracked : s'.tracked.Perm s.tracked) (hwaiting : s.waiting.Perm (hook.call?.toList ++ s'.waiting))
    (hcompleted : s'.completed = s.completed) : TrackerMove s (s'.runHook hook) := by
  cases hook with
  | settle call time =>
    refine .complete (call, time) ?_ htracked hwaiting ?_
    · exact congrArg (Tracker.complete · time) htracker
    · exact congrArg (· ++ [(call, time)]) hcompleted
  | other => exact .keep (htracker ▸ .refl _) htracked hwaiting.symm hcompleted

/-- A callback goes from its call to the handle. -/
theorem perm_wait {hooks waiting others : List (Nat × Int)} (entry : Nat × Int) :
    (hooks ++ (waiting ++ [entry] ++ others)).Perm (entry :: hooks ++ (waiting ++ others)) := by
  calc hooks ++ (waiting ++ [entry] ++ others)
      |>.Perm (hooks ++ (entry :: (waiting ++ others))) := by
        rw [List.append_assoc]
        exact List.perm_middle.append_left hooks
    _ |>.Perm (entry :: hooks ++ (waiting ++ others)) := List.perm_middle

theorem move_step (h : TrackerStep s s') : TrackerMove s s' := by
  cases h with
  | rest => exact .keep (.refl _) (.refl _) (.refl _) rfl
  | look tracker same => exact .keep same (.refl _) (.refl _) rfl
  | begin handle hround hkept =>
    refine .keep (.refl _) (.refl _) (.of_eq ?_) rfl
    simp [waiting, TrackerHandle.waiting, hround, hkept]
  | call handle time =>
    refine .keep (.refl _) (.of_eq ?_) (.of_eq ?_) rfl
    · simp [tracked, TrackCall.tracked]
    · simp [waiting, TrackCall.hooks]
  | count n number handle time hcall =>
    obtain ⟨_, htracked, htracked'⟩ := perm_flatMap_set TrackCall.tracked hcall
    obtain ⟨_, hhooks, hhooks'⟩ := perm_flatMap_set TrackCall.hooks hcall
    refine .count (number, time) rfl ?_ ?_ rfl
    · exact (htracked' ⟨number, handle, time, .counted⟩).trans (htracked.symm.cons (number, time))
    · exact ((hhooks' ⟨number, handle, time, .counted⟩).trans
        (hhooks.symm.cons (number, time))).append_right _
  | wait n number m time handle completion hcall hhandle hregister =>
    obtain ⟨_, htracked, htracked'⟩ := perm_flatMap_set TrackCall.tracked hcall
    obtain ⟨hooks, hhooks, hhooks'⟩ := perm_flatMap_set TrackCall.hooks hcall
    obtain ⟨others, hwaiting, hwaiting'⟩ := perm_flatMap_set TrackerHandle.waiting hhandle
    have hafter := hwaiting' { handle with completion }
    rw [TrackerHandle.waiting_register hregister] at hafter
    refine .keep (.refl _) ((htracked' _).trans htracked.symm) ?_ rfl
    exact (((hhooks' _).append hafter).trans (perm_wait (number, time))).trans
      (hhooks.symm.append hwaiting.symm)
  | pass n number handle time hcall =>
    obtain ⟨_, htracked, htracked'⟩ := perm_flatMap_set TrackCall.tracked hcall
    obtain ⟨_, hhooks, hhooks'⟩ := perm_flatMap_set TrackCall.hooks hcall
    refine .keep (.refl _) ((htracked' _).trans htracked.symm) ?_ rfl
    exact ((hhooks' ⟨number, handle, time, .passed⟩).trans hhooks.symm).append_right _
  | atOnce n number handle time hcall =>
    obtain ⟨_, htracked, htracked'⟩ := perm_flatMap_set TrackCall.tracked hcall
    obtain ⟨_, hhooks, hhooks'⟩ := perm_flatMap_set TrackCall.hooks hcall
    refine move_runHook (.settle number time) rfl ((htracked' _).trans htracked.symm) ?_ rfl
    exact (hhooks.trans ((hhooks' ⟨number, handle, time, .returned⟩).symm.cons
      (number, time))).append_right _
  | shift n handle handle' hhandle hwaiting hsettled =>
    obtain ⟨others, hbefore, hset⟩ := perm_flatMap_set TrackerHandle.waiting hhandle
    refine .keep (.refl _) (.refl _) ?_ rfl
    exact ((hset handle').trans (hwaiting ▸ hbefore.symm)).append_left _
  | hook n handle hook round hhandle hround =>
    obtain ⟨others, hwaiting, hwaiting'⟩ := perm_flatMap_set TrackerHandle.waiting hhandle
    rw [TrackerHandle.waiting_cons hround, List.append_assoc] at hwaiting
    refine move_runHook hook rfl (.refl _) ?_ rfl
    calc s.waiting
        |>.Perm (s.calls.flatMap TrackCall.hooks ++
            (hook.call?.toList ++ ({ handle with round }.waiting ++ others))) :=
          hwaiting.append_left _
      _ |>.Perm (hook.call?.toList ++ (s.calls.flatMap TrackCall.hooks ++
            ({ handle with round }.waiting ++ others))) := List.perm_append_comm_assoc ..
      _ |>.Perm (hook.call?.toList ++ waiting
            { s with handles := s.handles.set n { handle with round } }) :=
          ((hwaiting' _).symm.append_left _).append_left _

end TrackerSession

end EventReplay
