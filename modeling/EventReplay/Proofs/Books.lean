import EventReplay.Proofs.OpenTimes
import EventReplay.Proofs.OwedHooks

/-!
# The books of a replay

Every event that is handed to the sink gets three hooks on its outcome, in this order: the tracker lets
its time go, a failure is counted, and its unit of the gate goes back. `Books` relates the hooks that
are still to run to what the tracker holds, to the failures counted, and to the permits that are out.
A hook that runs keeps the books (`Books.run`), and so does a new dispatch (`Books.enter`).
-/

set_option autoImplicit false

namespace EventReplay

/-- An event that has been handed to the sink. -/
structure Dispatch where
  handle : Nat
  event : Event
  outbound : Int
deriving DecidableEq, Repr

/-- The hooks on the outcome of an event. -/
def Dispatch.hooks (d : Dispatch) : List Hook :=
  [.settle d.outbound, .countFailure d.event.timestamp d.event.key, .release]

/-- Whether an outcome is a failure. -/
def Outcome.isFailure (outcome : Outcome) : Bool := outcome.fault?.isSome

theorem filter_perm_cons {α : Type} {l : List α} {p q : α → Bool} {a : α} (hl : l.Nodup)
    (ha : a ∈ l) (hp : p a = true) (hq : q a = false) (hpq : ∀ b ∈ l, b ≠ a → p b = q b) :
    (l.filter p).Perm (a :: l.filter q) := by
  induction l with
  | nil => simp at ha
  | cons b l ih =>
      obtain ⟨hb, hl⟩ := List.nodup_cons.mp hl
      by_cases hba : b = a
      · subst hba
        have hrest : l.filter p = l.filter q :=
          List.filter_congr fun c hc => hpq c (.tail _ hc) fun h => hb (h ▸ hc)
        simp [hp, hq, hrest]
      · have hmem : a ∈ l := (List.mem_cons.mp ha).resolve_left (Ne.symm hba)
        have hperm := ih hl hmem fun c hc => hpq c (.tail _ hc)
        have hb' := hpq b (.head _) hba
        cases hpb : p b with
        | true =>
            rw [hpb] at hb'
            rw [List.filter_cons_of_pos hpb, List.filter_cons_of_pos hb'.symm]
            exact (hperm.cons b).trans (.swap ..)
        | false =>
            rw [hpb] at hb'
            rw [List.filter_cons_of_neg (by simp [hpb]), List.filter_cons_of_neg (by simp [← hb'])]
            exact hperm

/-- What the hooks still to run say about tracker, failures and permits. -/
structure Books (ds : List Dispatch) (owed : Nat → List Hook) (outcome : Nat → Option Outcome)
    (tracker : Tracker) (failed permits : Nat) : Prop where
  distinct : (ds.map Dispatch.handle).Nodup
  /-- The hooks of an event run in order. -/
  suffix : ∀ d ∈ ds, owed d.handle <:+ d.hooks
  /-- None of them runs before the outcome has been told. -/
  untold : ∀ d ∈ ds, outcome d.handle = none → owed d.handle = d.hooks
  notes : ∀ h, h ∉ ds.map Dispatch.handle → ∀ hook ∈ owed h, hook.IsNote
  holds : tracker.Holds ((ds.filter fun d => owed d.handle = d.hooks).map Dispatch.outbound)
  completed_le : ∀ d ∈ ds, owed d.handle ≠ d.hooks →
    ∃ t, tracker.lastCompleted = some t ∧ d.outbound ≤ t
  completed_mem : ∀ t, tracker.lastCompleted = some t →
    ∃ d ∈ ds, owed d.handle ≠ d.hooks ∧ d.outbound = t
  failures : failed = ds.countP fun d =>
    (owed d.handle).length ≤ 1 && (outcome d.handle).any Outcome.isFailure
  permits : permits = ds.countP fun d => owed d.handle ≠ []

namespace Books

variable {ds : List Dispatch} {owed : Nat → List Hook} {outcome : Nat → Option Outcome}
  {tracker : Tracker} {failed permits : Nat}

/-- The books of a replay that has dispatched nothing. -/
theorem empty (config : WatermarkConfig) (start : Int) (hnotes : ∀ h, ∀ hook ∈ owed h, hook.IsNote) :
    Books [] owed outcome (.startingAt config start) 0 0 := by
  refine ⟨.nil, ?_, ?_, fun h _ => hnotes h, Tracker.holds_startingAt .., ?_, ?_, rfl, rfl⟩ <;>
    simp [Tracker.startingAt]

theorem eq_of_handle (h : Books ds owed outcome tracker failed permits) {d d' : Dispatch}
    (hd : d ∈ ds) (hd' : d' ∈ ds) (heq : d.handle = d'.handle) : d = d' :=
  List.inj_on_of_nodup_map h.distinct hd hd' heq

/-- An outcome that is told changes none of the books. -/
theorem tell (h : Books ds owed outcome tracker failed permits) {outcome' : Nat → Option Outcome}
    (hout : ∀ i o, outcome i = some o → outcome' i = some o) :
    Books ds owed outcome' tracker failed permits := by
  have hnone : ∀ i, outcome' i = none → outcome i = none := by
    intro i hi
    cases ho : outcome i with
    | none => rfl
    | some o => exact absurd (hi.symm.trans (hout i o ho)) (by simp)
  refine { h with untold := fun d hd hn => h.untold d hd (hnone _ hn), failures := ?_ }
  rw [h.failures]
  apply List.countP_congr
  intro d hd
  cases ho : outcome d.handle with
  | none => simp [h.untold d hd ho, Dispatch.hooks]
  | some o => rw [hout _ o ho]

/-- The times that the tracker holds are those of the events none of whose hooks has run. -/
theorem times_congr (h : Books ds owed outcome tracker failed permits) {owed' : Nat → List Hook}
    (hsame : ∀ d ∈ ds, owed' d.handle = d.hooks ↔ owed d.handle = d.hooks) :
    tracker.Holds ((ds.filter fun d => owed' d.handle = d.hooks).map Dispatch.outbound) ∧
    (∀ d ∈ ds, owed' d.handle ≠ d.hooks →
      ∃ t, tracker.lastCompleted = some t ∧ d.outbound ≤ t) ∧
    ∀ t, tracker.lastCompleted = some t →
      ∃ d ∈ ds, owed' d.handle ≠ d.hooks ∧ d.outbound = t := by
  refine ⟨?_, ?_, ?_⟩
  · have hfilter : (ds.filter fun d => owed' d.handle = d.hooks) =
        ds.filter fun d => owed d.handle = d.hooks :=
      List.filter_congr fun d hd => decide_eq_decide.mpr (hsame d hd)
    exact hfilter ▸ h.holds
  · intro d hd hne
    exact h.completed_le d hd (mt (hsame d hd).mpr hne)
  · intro t ht
    obtain ⟨d, hd, hne, hdt⟩ := h.completed_mem t ht
    exact ⟨d, hd, mt (hsame d hd).mp hne, hdt⟩

/-- Books see only the hooks of what has been dispatched. -/
theorem congr (h : Books ds owed outcome tracker failed permits) {owed' : Nat → List Hook}
    {outcome' : Nat → Option Outcome} (howed : ∀ d ∈ ds, owed' d.handle = owed d.handle)
    (hout : ∀ d ∈ ds, outcome' d.handle = outcome d.handle)
    (hnotes : ∀ h, h ∉ ds.map Dispatch.handle → ∀ hook ∈ owed' h, hook.IsNote) :
    Books ds owed' outcome' tracker failed permits := by
  obtain ⟨hholds, hle, hcompleted⟩ := h.times_congr fun d hd =>
    show owed' d.handle = d.hooks ↔ owed d.handle = d.hooks by rw [howed d hd]
  refine ⟨h.distinct, ?_, ?_, hnotes, hholds, hle, hcompleted, ?_, ?_⟩
  · intro d hd
    rw [howed d hd]
    exact h.suffix d hd
  · intro d hd hn
    rw [howed d hd]
    exact h.untold d hd ((hout d hd).symm.trans hn)
  · rw [h.failures]
    apply List.countP_congr
    intro d hd
    rw [howed d hd, hout d hd]
  · rw [h.permits]
    apply List.countP_congr
    intro d hd
    rw [howed d hd]

/-- Books see only the times of the tracker. -/
theorem sameTimes (h : Books ds owed outcome tracker failed permits) {tracker' : Tracker}
    (hs : tracker.SameTimes tracker') : Books ds owed outcome tracker' failed permits := by
  refine { h with holds := h.holds.congr hs, completed_le := ?_, completed_mem := ?_ }
  · rw [hs.lastCompleted]
    exact h.completed_le
  · rw [hs.lastCompleted]
    exact h.completed_mem

section Run

variable {d : Dispatch} {o : Outcome} {hook : Hook} {hooks : List Hook}

theorem update_of_ne (h : Books ds owed outcome tracker failed permits) (hd : d ∈ ds)
    {e : Dispatch} (he : e ∈ ds) (hne : e ≠ d) (hooks : List Hook) :
    Function.update owed d.handle hooks e.handle = owed e.handle := by
  have hhandle : e.handle ≠ d.handle := by
    intro heq
    exact hne (h.eq_of_handle he hd heq)
  exact Function.update_of_ne hhandle ..

/-- A hook that runs is of no account for what does not tell the hooks of its event before and after. -/
theorem update_iff (h : Books ds owed outcome tracker failed permits) (hd : d ∈ ds)
    (hooks : List Hook) (P : Dispatch → List Hook → Prop) (hP : P d hooks ↔ P d (owed d.handle)) :
    ∀ e ∈ ds, P e (Function.update owed d.handle hooks e.handle) ↔ P e (owed e.handle) := by
  intro e he
  by_cases hed : e = d
  · subst hed
    rwa [Function.update_self]
  · rw [h.update_of_ne hd he hed]

/-- The failures stay the same where it cannot be seen that a hook of an event has run. -/
theorem failures_update (h : Books ds owed outcome tracker failed permits) (hd : d ∈ ds)
    {hooks : List Hook} (hsame : (hooks.length ≤ 1 && (outcome d.handle).any Outcome.isFailure) =
      ((owed d.handle).length ≤ 1 && (outcome d.handle).any Outcome.isFailure)) :
    failed = ds.countP fun e => (Function.update owed d.handle hooks e.handle).length ≤ 1 &&
      (outcome e.handle).any Outcome.isFailure := by
  rw [h.failures]
  apply List.countP_congr
  intro e he
  refine (h.update_iff hd hooks (fun e hooks =>
    (hooks.length ≤ 1 && (outcome e.handle).any Outcome.isFailure) = true) ?_ e he).symm
  rw [hsame]

/-- The permits stay the same while the event has hooks left. -/
theorem permits_update (h : Books ds owed outcome tracker failed permits) (hd : d ∈ ds)
    {hooks : List Hook} (hne : hooks ≠ []) (howed : owed d.handle ≠ []) :
    permits = ds.countP fun e => Function.update owed d.handle hooks e.handle ≠ [] := by
  rw [h.permits]
  apply List.countP_congr
  intro e he
  refine (h.update_iff hd hooks (fun _ hooks => decide (hooks ≠ []) = true) ?_ e he).symm
  simp [hne, howed]

/-- The hooks of an event still run in order when the first of them has run. -/
theorem order_run (h : Books ds owed outcome tracker failed permits) (hd : d ∈ ds)
    (hout : outcome d.handle = some o) (hhead : owed d.handle = hook :: hooks) :
    (∀ e ∈ ds, Function.update owed d.handle hooks e.handle <:+ e.hooks) ∧
    (∀ e ∈ ds, outcome e.handle = none → Function.update owed d.handle hooks e.handle = e.hooks) ∧
    ∀ i, i ∉ ds.map Dispatch.handle →
      ∀ hook ∈ Function.update owed d.handle hooks i, hook.IsNote := by
  refine ⟨?_, ?_, ?_⟩
  · intro e he
    by_cases hed : e = d
    · subst hed
      rw [Function.update_self]
      exact (List.suffix_cons hook hooks).trans (hhead ▸ h.suffix e he)
    · rw [h.update_of_ne hd he hed]
      exact h.suffix e he
  · intro e he hn
    have hed : e ≠ d := by
      rintro rfl
      simp [hout] at hn
    rw [h.update_of_ne hd he hed]
    exact h.untold e he hn
  · intro i hi
    have hne : i ≠ d.handle := by
      rintro rfl
      exact hi (List.mem_map_of_mem hd)
    rw [Function.update_of_ne hne]
    exact h.notes i hi

/-- The tracker lets the time of an event go. -/
theorem settle (h : Books ds owed outcome tracker failed permits) (hd : d ∈ ds)
    (hout : outcome d.handle = some o) (hhead : owed d.handle = d.hooks) :
    Books ds (Function.update owed d.handle d.hooks.tail) outcome (tracker.complete d.outbound)
      failed permits := by
  have hhead' : owed d.handle = .settle d.outbound :: d.hooks.tail := hhead
  obtain ⟨hsuffix, huntold, hnotes⟩ := h.order_run hd hout hhead'
  -- the event is the one whose time leaves the tracker
  have hperm := filter_perm_cons (p := fun e => decide (owed e.handle = e.hooks))
    (q := fun e => decide (Function.update owed d.handle d.hooks.tail e.handle = e.hooks))
    (List.Nodup.of_map _ h.distinct) hd (by simpa using hhead) (by simp [Dispatch.hooks])
    fun e he hne => by rw [h.update_of_ne hd he hne]
  -- the last time let go is this one or the one before, whichever is later
  have hmax : ∃ t, (tracker.complete d.outbound).lastCompleted = some t ∧ d.outbound ≤ t ∧
      (∀ u, tracker.lastCompleted = some u → u ≤ t) ∧
      (t = d.outbound ∨ tracker.lastCompleted = some t) := by
    rw [Tracker.lastCompleted_complete]
    cases tracker.lastCompleted with
    | none => exact ⟨_, rfl, le_refl _, by simp, .inl rfl⟩
    | some u =>
        refine ⟨_, rfl, le_max_left _ _, ?_, ?_⟩
        · rintro _ ⟨⟩
          exact le_max_right _ _
        · have hchoice : max d.outbound u = d.outbound ∨ max d.outbound u = u := by omega
          rcases hchoice with hm | hm
          · exact .inl hm
          · exact .inr (congrArg some hm.symm)
  obtain ⟨t, ht, hdt, hle, hcases⟩ := hmax
  refine ⟨h.distinct, hsuffix, huntold, hnotes, ?_, ?_, ?_, ?_, ?_⟩
  · exact (h.holds.perm_times (hperm.map Dispatch.outbound)).complete
  · intro e he hne
    refine ⟨t, ht, ?_⟩
    by_cases hed : e = d
    · exact hed ▸ hdt
    · rw [h.update_of_ne hd he hed] at hne
      obtain ⟨u, hu, heu⟩ := h.completed_le e he hne
      exact heu.trans (hle u hu)
  · intro t' ht'
    obtain rfl := Option.some.inj (ht.symm.trans ht')
    rcases hcases with rfl | hold
    · exact ⟨d, hd, by simp [Dispatch.hooks], rfl⟩
    · obtain ⟨e, he, hne, het⟩ := h.completed_mem t hold
      have hed : e ≠ d := by
        rintro rfl
        exact hne hhead
      exact ⟨e, he, by rwa [h.update_of_ne hd he hed], het⟩
  -- the failure of the event is not counted yet, and its unit is still out
  · exact h.failures_update hd (by simp [hhead, Dispatch.hooks])
  · exact h.permits_update hd (by simp [Dispatch.hooks]) (by simp [hhead, Dispatch.hooks])

/-- A failure of an event is counted. -/
theorem count (h : Books ds owed outcome tracker failed permits) (hd : d ∈ ds)
    (hout : outcome d.handle = some o) (hhead : owed d.handle = d.hooks.tail) :
    Books ds (Function.update owed d.handle [.release]) outcome tracker
      (failed + if o.isFailure then 1 else 0) permits := by
  obtain ⟨hsuffix, huntold, hnotes⟩ := h.order_run hd hout hhead
  have htimes := h.times_congr
    (h.update_iff hd [.release] (fun e hooks => hooks = e.hooks) (by simp [hhead, Dispatch.hooks]))
  refine ⟨h.distinct, hsuffix, huntold, hnotes, htimes.1, htimes.2.1, htimes.2.2, ?_, ?_⟩
  · have hrest : ∀ e ∈ ds, e ≠ d → ((owed e.handle).length ≤ 1 &&
          (outcome e.handle).any Outcome.isFailure) =
        ((Function.update owed d.handle [.release] e.handle).length ≤ 1 &&
          (outcome e.handle).any Outcome.isFailure) :=
      fun e he hed => by rw [h.update_of_ne hd he hed]
    cases ho : o.isFailure with
    | true =>
        -- the event is the one more that is counted
        have hperm := filter_perm_cons (List.Nodup.of_map _ h.distinct) hd
          (by simp [hout, ho]) (by simp [hhead, Dispatch.hooks])
          fun e he hed => (hrest e he hed).symm
        rw [h.failures, List.countP_eq_length_filter, List.countP_eq_length_filter,
          hperm.length_eq]
        rfl
    | false => exact h.failures_update hd (by simp [hout, ho])
  · exact h.permits_update hd (by simp) (by simp [hhead, Dispatch.hooks])

/-- The unit of an event goes back to the gate. -/
theorem release (h : Books ds owed outcome tracker failed permits) (hd : d ∈ ds)
    (hout : outcome d.handle = some o) (hhead : owed d.handle = [.release]) :
    0 < permits ∧ Books ds (Function.update owed d.handle []) outcome tracker failed (permits - 1) := by
  obtain ⟨hsuffix, huntold, hnotes⟩ := h.order_run hd hout hhead
  have htimes := h.times_congr
    (h.update_iff hd [] (fun e hooks => hooks = e.hooks) (by simp [hhead, Dispatch.hooks]))
  -- the event is the one fewer whose unit is out
  have hperm := filter_perm_cons (p := fun e => decide (owed e.handle ≠ []))
    (q := fun e => decide (Function.update owed d.handle [] e.handle ≠ []))
    (List.Nodup.of_map _ h.distinct) hd (by simp [hhead]) (by simp)
    fun e he hed => by rw [h.update_of_ne hd he hed]
  have hpermits : permits = (ds.countP fun e =>
      Function.update owed d.handle [] e.handle ≠ []) + 1 := by
    rw [h.permits, List.countP_eq_length_filter, List.countP_eq_length_filter, hperm.length_eq]
    rfl
  refine ⟨by omega, h.distinct, hsuffix, huntold, hnotes, htimes.1, htimes.2.1, htimes.2.2, ?_, ?_⟩
  · exact h.failures_update hd (by simp [hhead])
  · omega

/-- The first of the hooks on a handle runs. -/
theorem run (h : Books ds owed outcome tracker failed permits) {handle : Nat}
    (hout : outcome handle = some o) (hhead : owed handle = hook :: hooks) :
    (hook = .release → 0 < permits) ∧
    Books ds (Function.update owed handle hooks) outcome (hook.onTracker tracker)
      (failed + hook.failures o) (if hook = .release then permits - 1 else permits) := by
  by_cases hmem : handle ∈ ds.map Dispatch.handle
  · obtain ⟨d, hd, rfl⟩ := List.mem_map.mp hmem
    have hsuffix := hhead ▸ h.suffix d hd
    simp only [Dispatch.hooks, List.suffix_cons_iff, List.cons.injEq, List.suffix_nil,
      reduceCtorEq, or_false] at hsuffix
    -- which hook comes first tells which of the three it is
    rcases hsuffix with ⟨rfl, rfl⟩ | ⟨rfl, rfl⟩ | ⟨rfl, rfl⟩
    · exact ⟨(by simp), h.settle hd hout hhead⟩
    · exact ⟨(by simp), h.count hd hout hhead⟩
    · obtain ⟨hpos, hbooks⟩ := h.release hd hout hhead
      exact ⟨fun _ => hpos, hbooks⟩
  -- a handle of no event is one of a marker, and its hooks only note
  · obtain ⟨shard, watermark, rfl⟩ := h.notes handle hmem hook (by simp [hhead])
    refine ⟨(by simp), h.congr ?_ (fun _ _ => rfl) ?_⟩
    · intro d hd
      have hne : d.handle ≠ handle := by
        rintro rfl
        exact hmem (List.mem_map_of_mem hd)
      exact Function.update_of_ne hne ..
    · intro i hi
      rw [Function.update_apply]
      split
      · rename_i heq
        intro hook' hhook'
        exact h.notes handle hmem hook' (by simp [hhead, hhook'])
      · exact h.notes i hi

end Run

/-- A new event is handed over: all its hooks are still to run, its time is tracked, and its unit of
the gate is out. -/
theorem enter (h : Books ds owed outcome tracker failed permits) {d : Dispatch}
    {owed' : Nat → List Hook} (hfresh : d.handle ∉ ds.map Dispatch.handle)
    (howed : owed' = Function.update owed d.handle d.hooks) :
    Books (ds ++ [d]) owed' outcome (tracker.track d.outbound) failed (permits + 1) := by
  have hsame : ∀ e ∈ ds, owed' e.handle = owed e.handle := by
    intro e he
    have hne : e.handle ≠ d.handle := by
      intro heq
      exact hfresh (heq ▸ List.mem_map_of_mem he)
    rw [howed]
    exact Function.update_of_ne hne ..
  have hd : owed' d.handle = d.hooks := by rw [howed, Function.update_self]
  refine ⟨?_, ?_, ?_, ?_, ?_, ?_, ?_, ?_, ?_⟩
  · rw [List.map_append, List.map_singleton, ← List.concat_eq_append]
    exact List.Nodup.concat hfresh h.distinct
  · intro e he
    rcases List.mem_append.mp he with he | he
    · exact hsame e he ▸ h.suffix e he
    · obtain rfl := List.mem_singleton.mp he
      exact hd ▸ List.suffix_refl _
  · intro e he hn
    rcases List.mem_append.mp he with he | he
    · exact hsame e he ▸ h.untold e he hn
    · obtain rfl := List.mem_singleton.mp he
      exact hd
  · intro i hi
    simp only [List.map_append, List.map_cons, List.map_nil, List.mem_append, List.mem_singleton,
      not_or] at hi
    rw [howed, Function.update_of_ne hi.2]
    exact h.notes i hi.1
  · rw [List.filter_append, List.filter_congr fun e he => by rw [hsame e he]]
    refine (h.holds.track d.outbound).perm_times ?_
    simpa [hd] using (List.perm_append_singleton ..).symm
  · intro e he hne
    rcases List.mem_append.mp he with he | he
    · exact h.completed_le e he (hsame e he ▸ hne)
    · obtain rfl := List.mem_singleton.mp he
      exact absurd hd hne
  · intro t ht
    obtain ⟨e, he, hne, het⟩ := h.completed_mem t ht
    exact ⟨e, List.mem_append_left _ he, by rwa [hsame e he], het⟩
  · rw [h.failures, List.countP_append]
    simp only [List.countP_cons, List.countP_nil, hd, Dispatch.hooks, List.length_cons,
      List.length_nil]
    apply List.countP_congr
    intro e he
    rw [hsame e he]
  · rw [h.permits, List.countP_append]
    have hcount : ds.countP (fun e => owed e.handle ≠ []) =
        ds.countP fun e => owed' e.handle ≠ [] := by
      apply List.countP_congr
      intro e he
      rw [hsame e he]
    rw [hcount]
    simp [hd, Dispatch.hooks]

end Books

end EventReplay
