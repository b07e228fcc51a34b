import Mathlib.Data.List.Perm.Basic
import Mathlib.Data.List.Sort
import EventReplay.Replay.Tracker

/-!
# What the tracker holds

The sorted list of times with counts stands for a multiset of times. `Tracker.Holds` says that this is
the multiset of a given list, and that the tracker's size is its length. Tracking a dispatch adds its
time, and completing one takes the time out again (`Tracker.Holds.track`, `Tracker.Holds.complete`).
The watermark that a tracker allows is below every time that it holds
(`Tracker.Holds.candidate_lt_of_mem`) and below every time still to come
(`Tracker.Holds.candidate_lt_of_le`).
-/

set_option autoImplicit false

namespace EventReplay

theorem Millis.pred_lt {s t : Int} (hst : s ≤ t) (ht : earliest < t) : pred s < t := by
  simp only [pred, clamp, earliest, latest] at *
  omega

theorem Millis.pred_le {t : Int} (ht : earliest ≤ t) : pred t ≤ t := by
  simp only [pred, clamp, earliest, latest] at *
  omega

/-! ## Times and their counts -/

/-- The times of a list of times with counts, each as often as it counts. -/
def timesOf (counts : List (Int × Nat)) : List Int :=
  counts.flatMap fun c => List.replicate c.2 c.1

/-- A list of times with counts is well formed: the times ascend and every count is at least one. -/
def WellCounted (counts : List (Int × Nat)) : Prop :=
  counts.Pairwise (fun c d => c.1 < d.1) ∧ ∀ c ∈ counts, 0 < c.2

theorem timesOf_cons (c : Int × Nat) (counts : List (Int × Nat)) :
    timesOf (c :: counts) = List.replicate c.2 c.1 ++ timesOf counts := rfl

theorem wellCounted_cons {c : Int × Nat} {counts : List (Int × Nat)} :
    WellCounted (c :: counts) ↔ (∀ d ∈ counts, c.1 < d.1) ∧ 0 < c.2 ∧ WellCounted counts := by
  simp only [WellCounted, List.pairwise_cons, List.forall_mem_cons]
  tauto

theorem timesOf_countIn (t : Int) (counts : List (Int × Nat)) :
    (timesOf (countIn t counts)).Perm (t :: timesOf counts) := by
  induction counts with
  | nil => exact .refl _
  | cons c rest ih =>
      obtain ⟨u, n⟩ := c
      simp only [countIn]
      split
      · exact .refl _
      · split
        · rename_i h
          subst h
          exact .of_eq (by simp [timesOf_cons, List.replicate_succ])
        -- the time goes in further back, and moves to the front past the first one
        · calc timesOf ((u, n) :: countIn t rest)
              = List.replicate n u ++ timesOf (countIn t rest) := rfl
            _ |>.Perm (List.replicate n u ++ t :: timesOf rest) := ih.append_left _
            _ |>.Perm (t :: (List.replicate n u ++ timesOf rest)) := List.perm_middle

theorem mem_countIn {t : Int} {counts : List (Int × Nat)} {c : Int × Nat}
    (h : c ∈ countIn t counts) : c.1 = t ∨ c ∈ counts := by
  induction counts with
  | nil => simp_all [countIn]
  | cons d rest ih =>
      obtain ⟨u, n⟩ := d
      simp only [countIn] at h
      grind

theorem wellCounted_countIn (t : Int) {counts : List (Int × Nat)} (h : WellCounted counts) :
    WellCounted (countIn t counts) := by
  induction counts with
  | nil => simp [countIn, WellCounted]
  | cons c rest ih =>
      obtain ⟨u, n⟩ := c
      obtain ⟨hlt, hpos, hrest⟩ := wellCounted_cons.mp h
      simp only [countIn]
      split
      · rename_i htu
        refine wellCounted_cons.mpr ⟨?_, Nat.one_pos, h⟩
        rintro d (_ | ⟨_, hd⟩)
        · exact htu
        · exact htu.trans (hlt d hd)
      · split
        · exact wellCounted_cons.mpr ⟨hlt, Nat.succ_pos n, hrest⟩
        · refine wellCounted_cons.mpr ⟨?_, hpos, ih hrest⟩
          intro d hd
          rcases mem_countIn hd with rfl | hd
          · show u < d.1
            omega
          · exact hlt d hd

theorem timesOf_countOut {t : Int} {counts rest : List (Int × Nat)} (hc : WellCounted counts)
    (h : countOut t counts = some rest) :
    (timesOf counts).Perm (t :: timesOf rest) ∧ WellCounted rest ∧
      ∀ c ∈ rest, ∃ d ∈ counts, d.1 = c.1 := by
  induction counts generalizing rest with
  | nil => simp [countOut] at h
  | cons c counts ih =>
      obtain ⟨u, n⟩ := c
      obtain ⟨hlt, hpos, hcounts⟩ := wellCounted_cons.mp hc
      simp only [countOut] at h
      split at h
      · rename_i htu
        subst htu
        obtain rfl := Option.some.inj h
        split
        · rename_i hn
          -- the last of its kind goes, and its entry with it
          obtain rfl : n = 1 := by simp only at hpos; omega
          exact ⟨.refl _, hcounts, fun c hcm => ⟨c, .tail _ hcm, rfl⟩⟩
        · rename_i hn
          -- others of its kind stay
          obtain ⟨m, rfl⟩ : ∃ m, n = m + 1 := ⟨n - 1, by omega⟩
          refine ⟨.of_eq (by simp [timesOf_cons, List.replicate_succ]), ?_, ?_⟩
          · exact wellCounted_cons.mpr ⟨hlt, by simp only; omega, hcounts⟩
          · rintro c (_ | ⟨_, hcm⟩)
            · exact ⟨_, .head _, rfl⟩
            · exact ⟨c, .tail _ hcm, rfl⟩
      · obtain ⟨rest, hrest, rfl⟩ := Option.map_eq_some_iff.mp h
        obtain ⟨hperm, hwell, hold⟩ := ih hcounts hrest
        refine ⟨?_, wellCounted_cons.mpr ⟨?_, hpos, hwell⟩, ?_⟩
        · calc (timesOf ((u, n) :: counts))
              |>.Perm (List.replicate n u ++ t :: timesOf rest) := hperm.append_left _
            _ |>.Perm (t :: (List.replicate n u ++ timesOf rest)) := List.perm_middle
        · intro d hd
          obtain ⟨d', hd', hdd⟩ := hold d hd
          exact hdd ▸ hlt d' hd'
        · rintro c (_ | ⟨_, hcm⟩)
          · exact ⟨_, .head _, rfl⟩
          · obtain ⟨d', hd', hdd⟩ := hold c hcm
            exact ⟨d', .tail _ hd', hdd⟩

theorem countOut_isSome {t : Int} {counts : List (Int × Nat)} (h : t ∈ timesOf counts) :
    ∃ rest, countOut t counts = some rest := by
  induction counts with
  | nil => simp [timesOf] at h
  | cons c counts ih =>
      obtain ⟨u, n⟩ := c
      simp only [countOut]
      split
      · exact ⟨_, rfl⟩
      · rename_i htu
        rcases List.mem_append.mp h with h | h
        · exact absurd (List.mem_replicate.mp h).2 htu
        · obtain ⟨rest, hrest⟩ := ih h
          exact ⟨_, by rw [hrest]; rfl⟩

/-- The first time of a well-formed list is the least that it stands for. -/
theorem least_timesOf {u : Int} {n : Nat} {counts : List (Int × Nat)}
    (h : WellCounted ((u, n) :: counts)) :
    u ∈ timesOf ((u, n) :: counts) ∧ ∀ t ∈ timesOf ((u, n) :: counts), u ≤ t := by
  obtain ⟨hlt, hpos, -⟩ := wellCounted_cons.mp h
  simp only at hlt hpos
  constructor
  · exact List.mem_append_left _ (List.mem_replicate.mpr ⟨by omega, rfl⟩)
  · intro t ht
    rcases List.mem_append.mp ht with ht | ht
    · exact (List.mem_replicate.mp ht).2.ge
    · obtain ⟨d, hd, htd⟩ := List.mem_flatMap.mp ht
      obtain ⟨-, rfl⟩ := List.mem_replicate.mp htd
      exact (hlt d hd).le

namespace Tracker

/-! ## The times that a tracker holds -/

/-- A tracker holds just these times, each as often as it is listed. -/
structure Holds (tracker : Tracker) (times : List Int) : Prop where
  wellCounted : WellCounted tracker.outstanding
  perm : (timesOf tracker.outstanding).Perm times
  size : tracker.size = times.length

variable {tracker : Tracker} {times : List Int}

theorem holds_startingAt (config : WatermarkConfig) (start : Int) :
    Holds (startingAt config start) [] :=
  ⟨⟨.nil, by simp [startingAt]⟩, .refl _, rfl⟩

theorem Holds.perm_times {times' : List Int} (h : Holds tracker times) (hp : times.Perm times') :
    Holds tracker times' :=
  ⟨h.wellCounted, h.perm.trans hp, h.size.trans hp.length_eq⟩

theorem Holds.track (h : Holds tracker times) (t : Int) : Holds (tracker.track t) (t :: times) :=
  ⟨wellCounted_countIn t h.wellCounted, (timesOf_countIn t _).trans (h.perm.cons t),
    congrArg (· + 1) h.size⟩

/-- Completing a time that is held finds it, and takes it out once. -/
theorem Holds.complete {t : Int} (h : Holds tracker (t :: times)) :
    Holds (tracker.complete t) times := by
  obtain ⟨rest, hrest⟩ := countOut_isSome (h.perm.mem_iff.mpr (.head _))
  obtain ⟨hperm, hwell, -⟩ := timesOf_countOut h.wellCounted hrest
  have hsize : tracker.size - 1 = times.length := by simp [h.size]
  simp only [Tracker.complete, hrest]
  exact ⟨hwell, (hperm.symm.trans h.perm).cons_inv, hsize⟩

theorem lastCompleted_complete (tracker : Tracker) (t : Int) :
    (tracker.complete t).lastCompleted = some ((tracker.lastCompleted.map (max t)).getD t) := by
  unfold complete
  split <;> rfl

theorem current_complete (tracker : Tracker) (t : Int) :
    (tracker.complete t).current = tracker.current := by
  unfold complete
  split <;> rfl

/-! ## The watermark that a tracker allows -/

theorem Holds.candidate_cases (h : Holds tracker times) {horizon : Option Int} {w : Int}
    (hw : tracker.candidate horizon = some w) :
    (∃ least ∈ times, (∀ t ∈ times, least ≤ t) ∧ w = Millis.pred least) ∨
    (times = [] ∧ ∃ completed, tracker.lastCompleted = some completed ∧
      w = horizon.elim completed fun next => min completed (Millis.pred next)) := by
  cases hout : tracker.outstanding with
  | nil =>
      have hperm := h.perm
      rw [hout] at hperm
      simp only [candidate, hout, Option.map_eq_some_iff] at hw
      obtain ⟨completed, hcompleted, rfl⟩ := hw
      exact .inr ⟨hperm.nil_eq.symm, completed, hcompleted, by cases horizon <;> rfl⟩
  | cons c counts =>
      obtain ⟨least, n⟩ := c
      have hwell := h.wellCounted
      have hperm := h.perm
      rw [hout] at hwell hperm
      obtain ⟨hmem, hleast⟩ := least_timesOf hwell
      simp only [candidate, hout, Option.some.injEq] at hw
      exact .inl ⟨least, hperm.mem_iff.mp hmem, fun t ht => hleast t (hperm.mem_iff.mpr ht), hw.symm⟩

theorem Holds.candidate_lt_of_mem (h : Holds tracker times) {horizon : Option Int} {w t : Int}
    (hw : tracker.candidate horizon = some w) (ht : t ∈ times) (hmin : Millis.earliest < t) :
    w < t := by
  rcases h.candidate_cases hw with ⟨least, -, hleast, rfl⟩ | ⟨rfl, -⟩
  · exact Millis.pred_lt (hleast t ht) hmin
  · simp at ht

theorem Holds.candidate_lt_of_le (h : Holds tracker times) {horizon w bound : Int}
    (hw : tracker.candidate (some horizon) = some w) (htimes : ∀ t ∈ times, t ≤ bound)
    (hhorizon : horizon ≤ bound) (hmin : Millis.earliest < bound) : w < bound := by
  rcases h.candidate_cases hw with ⟨least, hmem, -, rfl⟩ | ⟨-, completed, -, rfl⟩
  · exact Millis.pred_lt (htimes least hmem) hmin
  · exact lt_of_le_of_lt (min_le_right _ _) (Millis.pred_lt hhorizon hmin)

theorem Holds.outstanding_eq_nil (h : Holds tracker []) : tracker.outstanding = [] := by
  cases hout : tracker.outstanding with
  | nil => rfl
  | cons c counts =>
      have hwell := h.wellCounted
      have hperm := h.perm
      rw [hout] at hwell hperm
      exact absurd (hperm.mem_iff.mp (least_timesOf hwell).1) List.not_mem_nil

/-- With nothing held and nothing to come the watermark is the greatest time that has completed. -/
theorem Holds.candidate_none (h : Holds tracker []) :
    tracker.candidate none = tracker.lastCompleted := by
  simp [candidate, h.outstanding_eq_nil]

/-! ## Settled watermarks and markers -/

/-- A settled watermark is the one before or the one that is allowed now, whichever is later. -/
theorem settle_cases {horizon : Option Int} {w : Int} (h : (tracker.settle horizon).1 = some w) :
    (tracker.current = some w ∨ tracker.candidate horizon = some w) ∧
    (∀ c, tracker.current = some c → c ≤ w) ∧ ∀ c, tracker.candidate horizon = some c → c ≤ w := by
  simp only [settle] at h
  rcases hcur : tracker.current with _ | a <;> rcases hcand : tracker.candidate horizon with _ | b <;>
    simp_all only [later, Option.some.injEq, reduceCtorEq] <;> grind

theorem settle_none {horizon : Option Int} (h : (tracker.settle horizon).1 = none) :
    tracker.current = none ∧ tracker.candidate horizon = none := by
  simp only [settle] at h
  rcases hcur : tracker.current with _ | a <;> rcases hcand : tracker.candidate horizon with _ | b <;>
    simp_all [later]

/-- Trackers that hold the same times, of which the same have completed. -/
structure SameTimes (tracker tracker' : Tracker) : Prop where
  config : tracker'.config = tracker.config
  outstanding : tracker'.outstanding = tracker.outstanding
  size : tracker'.size = tracker.size
  lastCompleted : tracker'.lastCompleted = tracker.lastCompleted

theorem SameTimes.refl (tracker : Tracker) : SameTimes tracker tracker := ⟨rfl, rfl, rfl, rfl⟩

theorem Holds.congr {tracker' : Tracker} (h : Holds tracker times) (hs : SameTimes tracker tracker') :
    Holds tracker' times := by
  refine ⟨?_, ?_, hs.size.trans h.size⟩
  · rw [hs.outstanding]
    exact h.wellCounted
  · rw [hs.outstanding]
    exact h.perm

/-- What a tracker comes to when a value is settled, or none, and a marker is made of it if there are
to be markers. -/
structure Emission (tracker tracker' : Tracker) (now : Int) (settled : Option Int)
    (marker : Option Watermark) : Prop where
  same : SameTimes tracker tracker'
  current : tracker'.current = settled.or tracker.current
  marked : marker = if tracker.config.enabled then settled.map fun value => ⟨value, now⟩ else none
  emitted : tracker'.emitted = tracker.emitted + marker.toList.length

theorem mark_spec (tracker : Tracker) (now value : Int) :
    SameTimes tracker (tracker.mark now value).2 ∧
    (tracker.mark now value).2.current = tracker.current ∧
    (tracker.mark now value).1 = (if tracker.config.enabled then some ⟨value, now⟩ else none) ∧
    (tracker.mark now value).2.emitted =
      tracker.emitted + (tracker.mark now value).1.toList.length := by
  unfold mark
  split <;> exact ⟨⟨rfl, rfl, rfl, rfl⟩, rfl, rfl, rfl⟩

theorem emitNow_spec (tracker : Tracker) (now : Int) (horizon : Option Int) :
    Emission tracker (tracker.emitNow now horizon).2 now (tracker.settle horizon).1
      (tracker.emitNow now horizon).1 := by
  cases hw : (tracker.settle horizon).1 with
  | none =>
      have hcurrent := (settle_none hw).1
      have hemit : tracker.emitNow now horizon = (none, (tracker.settle horizon).2) := by
        simp only [emitNow, settle] at hw ⊢
        rw [hw]
      rw [hemit]
      exact ⟨⟨rfl, rfl, rfl, rfl⟩, by rw [hcurrent]; exact hw, by simp, rfl⟩
  | some value =>
      have hemit : tracker.emitNow now horizon = (tracker.settle horizon).2.mark now value := by
        simp only [emitNow, settle] at hw ⊢
        rw [hw]
      obtain ⟨hsame, hcurrent, hmarker, hemitted⟩ := mark_spec (tracker.settle horizon).2 now value
      rw [hemit]
      exact ⟨⟨hsame.config, hsame.outstanding, hsame.size, hsame.lastCompleted⟩,
        hcurrent.trans hw, hmarker, hemitted⟩

theorem maybeEmit_spec (tracker : Tracker) (now : Int) (horizon : Option Int) :
    Emission tracker (tracker.maybeEmit now horizon).2 now
      (if tracker.isDue now then (tracker.settle horizon).1 else none)
      (tracker.maybeEmit now horizon).1 := by
  cases hdue : tracker.isDue now with
  | false =>
      have hemit : tracker.maybeEmit now horizon = (none, tracker) := by
        simp only [maybeEmit, hdue, Bool.false_eq_true, if_false]
      rw [hemit]
      exact ⟨⟨rfl, rfl, rfl, rfl⟩, rfl, by simp, rfl⟩
  | true =>
      cases hw : (tracker.settle horizon).1 with
      | none =>
          have hcurrent := (settle_none hw).1
          have hemit : tracker.maybeEmit now horizon = (none, (tracker.settle horizon).2) := by
            simp only [maybeEmit, settle, hdue, if_true] at hw ⊢
            rw [hw]
          rw [hemit]
          exact ⟨⟨rfl, rfl, rfl, rfl⟩, by rw [hcurrent]; exact hw, by simp, rfl⟩
      | some value =>
          have hemit : tracker.maybeEmit now horizon = Tracker.mark
              { tracker with current := some value, lastEmit := now, eventsSinceEmit := 0 } now
              value := by
            simp only [maybeEmit, settle, hdue, if_true] at hw ⊢
            rw [hw]
          obtain ⟨hsame, hcurrent, hmarker, hemitted⟩ := mark_spec
            { tracker with current := some value, lastEmit := now, eventsSinceEmit := 0 } now value
          rw [hemit]
          exact ⟨⟨hsame.config, hsame.outstanding, hsame.size, hsame.lastCompleted⟩, hcurrent,
            hmarker, hemitted⟩

end Tracker

end EventReplay
