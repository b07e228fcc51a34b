import Mathlib.Algebra.Ring.Nat
import EventReplay.Proofs.TrackerSession

/-!
# The books of a tracker on many threads

However the threads take turns, each time that has been counted in has been completed by its callback or
the callback is still to run, and the tracker holds the times of the latter, each as often as it counts
(`TrackerSession.Kept`). So no callback looks for a time in vain, and once all outcomes have been told to
the end the tracker holds nothing (`TrackerSession.counts_underWay`).
-/

set_option autoImplicit false

namespace EventReplay

theorem max?_concat (times : List Int) (t : Int) :
    (times ++ [t]).max? = some ((times.max?.map (max t)).getD t) := by
  cases times with
  | nil => rfl
  | cons u times =>
    simp only [List.cons_append, List.max?_cons', List.foldl_append, List.foldl_cons, List.foldl_nil,
      Option.map_some, Option.getD_some, Int.max_comm t]

namespace TrackerSession

variable {s s' : TrackerSession}

/-! ## Times -/

/-- Each time that has been counted in has been completed or its callback is still to run, and the
tracker holds the times of the latter. -/
structure Kept (s : TrackerSession) : Prop where
  tracked : s.tracked.Perm (s.completed ++ s.waiting)
  holds : s.tracker.Holds (s.waiting.map Prod.snd)
  lastCompleted : s.tracker.lastCompleted = (s.completed.map Prod.snd).max?

theorem Kept.move (h : Kept s) (hmove : TrackerMove s s') : Kept s' := by
  obtain ⟨htracked, hholds, hlast⟩ := h
  cases hmove with
  | keep tracker tracked waiting completed =>
    refine ⟨?_, ?_, ?_⟩
    · rw [completed]
      exact (tracked.trans htracked).trans (waiting.symm.append_left _)
    · exact (hholds.congr tracker).perm_times (waiting.symm.map _)
    · rw [tracker.lastCompleted, completed, hlast]
  | count entry tracker tracked waiting completed =>
    refine ⟨?_, ?_, ?_⟩
    · rw [completed]
      calc s'.tracked
          |>.Perm (entry :: (s.completed ++ s.waiting)) := tracked.trans (htracked.cons entry)
        _ |>.Perm (s.completed ++ entry :: s.waiting) := List.perm_middle.symm
        _ |>.Perm (s.completed ++ s'.waiting) := waiting.symm.append_left _
    · rw [tracker]
      exact (hholds.track entry.2).perm_times (waiting.symm.map _)
    · rw [tracker, completed]
      exact hlast
  | complete entry tracker tracked waiting completed =>
    refine ⟨?_, ?_, ?_⟩
    · rw [completed, List.append_assoc]
      exact (tracked.trans htracked).trans (waiting.append_left _)
    · rw [tracker]
      exact (hholds.perm_times (waiting.map Prod.snd)).complete
    · rw [tracker, completed, Tracker.lastCompleted_complete, hlast, List.map_append]
      exact (max?_concat _ _).symm

/-- A callback that runs finds the time of its call. -/
theorem Kept.finds (h : Kept s) {entry : Nat × Int} (hwaiting : entry ∈ s.waiting) :
    ∃ count, (entry.2, count) ∈ s.tracker.outstanding ∧ 1 ≤ count ∧ 1 ≤ s.tracker.size ∧
      countOut entry.2 s.tracker.outstanding =
        some (s.tracker.complete entry.2).outstanding := by
  have htime : entry.2 ∈ s.waiting.map Prod.snd := List.mem_map_of_mem hwaiting
  have hheld := h.holds.perm.mem_iff.mpr htime
  obtain ⟨⟨time, count⟩, hentry, hcopy⟩ := List.mem_flatMap.mp hheld
  obtain ⟨hcount, rfl⟩ := List.mem_replicate.mp hcopy
  refine ⟨count, hentry, Nat.one_le_iff_ne_zero.mpr hcount, ?_, ?_⟩
  · rw [h.holds.size]
    exact List.length_pos_of_mem htime
  · obtain ⟨rest, hrest⟩ := countOut_isSome hheld
    simp only [Tracker.complete, hrest]

/-- The size of a tracker is the sum of its counts. -/
theorem Kept.size_eq (h : Kept s) :
    s.tracker.size = (s.tracker.outstanding.map Prod.snd).sum := by
  rw [h.holds.size, ← h.holds.perm.length_eq, timesOf, List.length_flatMap]
  simp

end TrackerSession

namespace TrackerSession

variable {s s' : TrackerSession}

/-! ## Calls and handles -/

/-- The calls with the handles that they are about. -/
def homes (s : TrackerSession) : List (Nat × Nat) :=
  s.calls.map fun call => (call.number, call.handle)

/-- What holds of calls and handles besides the times. -/
structure Sound (s : TrackerSession) : Prop where
  settled : s.Settled
  /-- The calls are numbered in order. -/
  numbers : s.homes.map Prod.fst = List.range s.homes.length
  /-- What waits on a handle belongs to a call about this handle. -/
  home : ∀ n handle, s.handles[n]? = some handle → ∀ entry ∈ handle.waiting, (entry.1, n) ∈ s.homes

theorem homes_set {n : Nat} {call call' : TrackCall} (h : s.calls[n]? = some call)
    (hnumber : call'.number = call.number) (hhandle : call'.handle = call.handle) :
    (s.calls.set n call').map (fun call => (call.number, call.handle)) = s.homes := by
  obtain ⟨hlt, rfl⟩ := List.getElem?_eq_some_iff.mp h
  have hlt' : n < s.homes.length := by simpa [homes] using hlt
  have hget : s.homes[n] = (s.calls[n].number, s.calls[n].handle) := by simp [homes]
  calc (s.calls.set n call').map (fun call => (call.number, call.handle))
      = s.homes.set n (call'.number, call'.handle) := List.map_set ..
    _ = s.homes.set n s.homes[n] := by rw [hnumber, hhandle, hget]
    _ = s.homes := List.set_getElem_self hlt'

/-- Only the tracker and the history have changed, or how far a call has come. -/
theorem Sound.congr (h : Sound s) (hhandles : s'.handles = s.handles) (hhomes : s'.homes = s.homes) :
    Sound s' := by
  refine ⟨?_, ?_, ?_⟩
  · intro handle hmem
    exact h.settled handle (hhandles ▸ hmem)
  · rw [hhomes]
    exact h.numbers
  · rw [hhandles, hhomes]
    exact h.home

/-- One handle has changed. -/
theorem Sound.set (h : Sound s) {n : Nat} {handle' : TrackerHandle} (hsettled : handle'.Settled)
    (hhome : ∀ entry ∈ handle'.waiting, (entry.1, n) ∈ s.homes)
    (hhandles : s'.handles = s.handles.set n handle') (hhomes : s'.homes = s.homes) :
    Sound s' := by
  refine ⟨?_, ?_, ?_⟩
  · intro handle hmem
    rw [hhandles] at hmem
    rcases List.mem_or_eq_of_mem_set hmem with hmem | rfl
    · exact h.settled handle hmem
    · exact hsettled
  · rw [hhomes]
    exact h.numbers
  · intro m handle hhandle entry hentry
    rw [hhomes]
    rw [hhandles] at hhandle
    by_cases hm : n = m
    · subst hm
      obtain ⟨hlt, hget⟩ := List.getElem?_eq_some_iff.mp hhandle
      rw [List.getElem_set_self] at hget
      exact hhome entry (hget ▸ hentry)
    · rw [List.getElem?_set_ne hm] at hhandle
      exact h.home m handle hhandle entry hentry

theorem Sound.step (h : Sound s) (hstep : TrackerStep s s') : Sound s' := by
  cases hstep with
  | rest => exact h
  | look tracker same => exact h.congr rfl rfl
  | count n number handle time hcall => exact h.congr rfl (homes_set hcall rfl rfl)
  | pass n number handle time hcall => exact h.congr rfl (homes_set hcall rfl rfl)
  | atOnce n number handle time hcall => exact h.congr rfl (homes_set hcall rfl rfl)
  | begin handle' hround hkept =>
    refine ⟨?_, h.numbers, ?_⟩
    · intro handle hmem
      rcases List.mem_append.mp hmem with hmem | hmem
      · exact h.settled handle hmem
      · obtain rfl := List.mem_singleton.mp hmem
        exact .inl hround
    · intro n handle hhandle entry hentry
      by_cases hlt : n < s.handles.length
      · rw [List.getElem?_append_left hlt] at hhandle
        exact h.home n handle hhandle entry hentry
      · rw [List.getElem?_append_right (Nat.le_of_not_lt hlt)] at hhandle
        obtain rfl := List.mem_singleton.mp (List.mem_of_getElem? hhandle)
        simp [TrackerHandle.waiting, hround, hkept] at hentry
  | call handle time =>
    have hlength : s.homes.length = s.calls.length := by simp [homes]
    have hhomes : homes { s with
        calls := s.calls ++ [{ number := s.calls.length, handle, time }] } =
        s.homes ++ [(s.homes.length, handle)] := by simp [homes]
    refine ⟨h.settled, ?_, ?_⟩
    · rw [hhomes, List.map_append, h.numbers, List.length_append, List.length_singleton,
        List.range_succ]
      rfl
    · intro n handle' hhandle entry hentry
      rw [hhomes]
      exact List.mem_append_left _ (h.home n handle' hhandle entry hentry)
  | wait n number m time handle completion hcall hhandle hregister =>
    have hsettled := (h.settled handle (List.mem_of_getElem? hhandle)).register (.settle number time)
    rw [hregister] at hsettled
    refine h.set hsettled ?_ rfl (homes_set hcall rfl rfl)
    intro entry hentry
    rw [TrackerHandle.waiting_register hregister] at hentry
    rcases List.mem_append.mp hentry with hentry | hentry
    · exact h.home m handle hhandle entry hentry
    -- the callback that has come to the handle is that of the call
    · obtain rfl := List.mem_singleton.mp hentry
      exact List.mem_map_of_mem (List.mem_of_getElem? hcall)
  | shift n handle handle' hhandle hwaiting hsettled =>
    refine h.set hsettled ?_ rfl rfl
    rw [hwaiting]
    exact h.home n handle hhandle
  | hook n handle hook round hhandle hround =>
    have hset : Sound { s with handles := s.handles.set n { handle with round } } := by
      refine h.set ((h.settled handle (List.mem_of_getElem? hhandle)).hook hround) ?_ rfl rfl
      intro entry hentry
      refine h.home n handle hhandle entry ?_
      rw [TrackerHandle.waiting_cons hround]
      exact List.mem_append_right _ hentry
    cases hook with
    | settle call time => exact hset.congr rfl rfl
    | other => exact hset

/-! ## Whole schedules -/

theorem kept_run (config : WatermarkConfig) (start : Int) (schedule : List TrackerAction) :
    Kept (run config start schedule) ∧ Sound (run config start schedule) := by
  have hfresh : Kept { tracker := .startingAt config start } ∧
      Sound { tracker := .startingAt config start } := by
    refine ⟨⟨.refl _, Tracker.holds_startingAt config start, rfl⟩, ?_, rfl, ?_⟩
    · intro handle hmem
      cases hmem
    · intro n handle hhandle
      simp at hhandle
  rw [run]
  generalize ({ tracker := .startingAt config start } : TrackerSession) = s at hfresh
  induction schedule generalizing s with
  | nil => exact hfresh
  | cons action schedule ih =>
    obtain ⟨hkept, hsound⟩ := hfresh
    have hstep := step_act hsound.settled action
    exact ih _ ⟨hkept.move (move_step hstep), hsound.step hstep⟩

/-- No two calls have a number in common. -/
theorem Sound.nodup_tracked (h : Sound s) : s.tracked.Nodup := by
  have hnumbers : (s.calls.map TrackCall.number).Nodup := by
    have hrange : s.calls.map TrackCall.number = List.range s.homes.length := by
      rw [← h.numbers, homes, List.map_map]
      rfl
    rw [hrange]
    exact List.nodup_range
  have hsublist (calls : List TrackCall) :
      ((calls.flatMap TrackCall.tracked).map Prod.fst).Sublist (calls.map TrackCall.number) := by
    induction calls with
    | nil => exact .slnil
    | cons call calls ih =>
      obtain ⟨number, handle, time, stage⟩ := call
      cases stage with
      | called => exact ih.cons _
      | counted | passed | returned => exact ih.cons_cons _
  exact .of_map _ (hnumbers.sublist (hsublist s.calls))

/-- All outcomes of tracked dispatches have been told to the end, and all calls have returned. -/
def AllTold (s : TrackerSession) : Prop :=
  ∀ call ∈ s.calls, call.stage = .returned ∧
    ∃ handle outcome, s.handles[call.handle]? = some handle ∧ handle.completion = .resolved outcome

theorem Sound.waiting_eq_nil (h : Sound s) (hall : s.AllTold) : s.waiting = [] := by
  have hhooks : s.calls.flatMap TrackCall.hooks = [] := by
    rw [List.flatMap_eq_nil_iff]
    intro call hmem
    rw [TrackCall.hooks, (hall call hmem).1]
  have hhandles : s.handles.flatMap TrackerHandle.waiting = [] := by
    rw [List.flatMap_eq_nil_iff]
    intro handle hmem
    by_contra hne
    obtain ⟨entry, hentry⟩ := List.exists_mem_of_ne_nil _ hne
    obtain ⟨n, hhandle⟩ := List.getElem?_of_mem hmem
    -- what waits belongs to a call about this handle, and its outcome has been told to the end
    obtain ⟨call, hcall, heq⟩ := List.mem_map.mp (h.home n handle hhandle entry hentry)
    obtain ⟨-, handle', outcome, hhandle', hresolved⟩ := hall call hcall
    obtain rfl : call.handle = n := congrArg Prod.snd heq
    obtain rfl : handle' = handle := Option.some.inj (hhandle'.symm.trans hhandle)
    have hround : handle'.round = [] := by
      simpa [TrackerHandle.Settled, hresolved] using h.settled handle' hmem
    simp [TrackerHandle.waiting, hround, hresolved, Completion.kept] at hentry
  rw [waiting, hhooks, hhandles, List.append_nil]

/-- The times that have been counted in and that no callback has completed. -/
def underWay (s : TrackerSession) : List Int :=
  (s.tracked.filter fun entry => entry ∉ s.completed).map Prod.snd

/-- The calls that no callback has completed are those of which the callbacks are still to run. -/
theorem Kept.filter_perm (h : Kept s) (hsound : Sound s) :
    (s.tracked.filter fun entry => entry ∉ s.completed).Perm s.waiting := by
  have hnodup := h.tracked.nodup hsound.nodup_tracked
  have hdisjoint := List.disjoint_of_nodup_append hnodup
  have hcompleted : s.completed.filter (fun entry => entry ∉ s.completed) = [] := by
    rw [List.filter_eq_nil_iff]
    intro entry hentry
    simpa using hentry
  have hwaiting : s.waiting.filter (fun entry => entry ∉ s.completed) = s.waiting := by
    rw [List.filter_eq_self]
    intro entry hentry
    simpa using fun hmem => hdisjoint hmem hentry
  calc s.tracked.filter (fun entry => entry ∉ s.completed)
      |>.Perm ((s.completed ++ s.waiting).filter fun entry => entry ∉ s.completed) :=
        h.tracked.filter _
    _ |>.Perm s.waiting := .of_eq (by rw [List.filter_append, hcompleted, hwaiting, List.nil_append])

/-- After every schedule: the tracker's times ascend and are those that have been counted in and not been
completed, each with a count of at least one, and its size is the sum of the counts. A callback runs at
most once, and for a time that has been counted in; it finds the time with its count, and takes one out.
The time completed last is the greatest of all that have been completed. Once all outcomes have been told
to the end, and all calls have returned, the tracker holds nothing. -/
theorem counts_underWay (config : WatermarkConfig) (start : Int) (schedule : List TrackerAction) :
    let s := run config start schedule
    s.tracker.outstanding.Pairwise (fun c d => c.1 < d.1) ∧
    (timesOf s.tracker.outstanding).Perm s.underWay ∧
    (∀ entry ∈ s.tracker.outstanding, 1 ≤ entry.2) ∧
    s.tracker.size = (s.tracker.outstanding.map Prod.snd).sum ∧
    (s.completed.Nodup ∧ ∀ entry ∈ s.completed, entry ∈ s.tracked) ∧
    (∀ (action : TrackerAction) (call : Nat) (time : Int),
      (s.act action).completed = s.completed ++ [(call, time)] →
        ∃ count, (time, count) ∈ s.tracker.outstanding ∧ 1 ≤ count ∧ 1 ≤ s.tracker.size ∧
          countOut time s.tracker.outstanding = some (s.act action).tracker.outstanding) ∧
    s.tracker.lastCompleted = (s.completed.map Prod.snd).max? ∧
    (s.AllTold → s.tracker.outstanding = [] ∧ s.tracker.size = 0) := by
  intro s
  obtain ⟨hkept, hsound⟩ : Kept s ∧ Sound s := kept_run config start schedule
  have hnodup := hkept.tracked.nodup hsound.nodup_tracked
  refine ⟨hkept.holds.wellCounted.1, ?_, hkept.holds.wellCounted.2, hkept.size_eq, ⟨?_, ?_⟩, ?_,
    hkept.lastCompleted, ?_⟩
  · exact hkept.holds.perm.trans ((hkept.filter_perm hsound).symm.map Prod.snd)
  · exact hnodup.of_append_left
  · intro entry hentry
    exact hkept.tracked.mem_iff.mpr (List.mem_append_left _ hentry)
  · intro action call time hcompletes
    have hself : ∀ entry : Nat × Int, s.completed ≠ s.completed ++ [entry] := by simp
    cases move_step (step_act hsound.settled action) with
    | keep tracker tracked waiting completed => exact absurd (completed.symm.trans hcompletes) (hself _)
    | count entry tracker tracked waiting completed =>
      exact absurd (completed.symm.trans hcompletes) (hself _)
    | complete entry tracker tracked waiting completed =>
      obtain rfl : entry = (call, time) := by simpa using completed.symm.trans hcompletes
      obtain ⟨count, hentry, hcount, hsize, hout⟩ :=
        hkept.finds (waiting.mem_iff.mpr (List.mem_cons_self ..))
      exact ⟨count, hentry, hcount, hsize, tracker ▸ hout⟩
  · intro hall
    have hholds := hkept.holds
    rw [hsound.waiting_eq_nil hall] at hholds
    exact ⟨hholds.outstanding_eq_nil, hholds.size⟩

/-- Two dispatches with one time, of which the second had its outcome from the start: its call completes
the time at once while the other one is counted in, and with the outcome of the first nothing is left. -/
theorem counts_underWay_two_dispatches :
    let before : List TrackerAction := [.dispatch, .refuse .written, .track 0 5, .track 1 5,
      .stepCall 0, .stepCall 1, .stepCall 1]
    let after : List TrackerAction := [.stepCall 1, .stepCall 0, .tell 0 (.failed .abandoned),
      .stepTeller 0, .stepTeller 0]
    (run {} 0 before).tracker.outstanding = [(5, 2)] ∧
    countOut 5 [(5, 2)] = some ((run {} 0 before).act (.stepCall 1)).tracker.outstanding ∧
    (run {} 0 (before ++ after)).AllTold ∧
    (run {} 0 (before ++ after)).tracker.outstanding = [] := by
  intro before after
  obtain ⟨-, -, -, -, -, hfinds, -, -⟩ := counts_underWay {} 0 before
  obtain ⟨-, -, -, -, -, -, -, hend⟩ := counts_underWay {} 0 (before ++ after)
  obtain ⟨count, -, -, -, hout⟩ := hfinds (.stepCall 1) 1 5 rfl
  have hall : (run {} 0 (before ++ after)).AllTold := by
    have hcalls : (run {} 0 (before ++ after)).calls =
        [⟨0, 0, 5, .returned⟩, ⟨1, 1, 5, .returned⟩] := rfl
    intro call hmem
    rw [hcalls] at hmem
    rcases List.mem_pair.mp hmem with rfl | rfl
    · exact ⟨rfl, _, _, rfl, rfl⟩
    · exact ⟨rfl, _, _, rfl, rfl⟩
  exact ⟨rfl, hout, hall, (hend hall).1⟩

end TrackerSession

end EventReplay
