import Mathlib.Data.List.Induction
import EventReplay.Proofs.MemorySession
import EventReplay.Proofs.OneOfMany

/-!
# The books of a sink in memory

However its jobs take turns, a sink in memory counts each of them where it is: a record that has been
accepted is in flight, delivered or refused (`MemorySession.Booked`). One job at most has the lock, and
only that job can be ahead of what the others see (`MemorySession.Locking`). A handle is told what
became of its own delivery (`MemoryJob.Sound`). All of this holds after every schedule
(`MemorySession.lawful_run`).
-/

set_option autoImplicit false

namespace EventReplay

open scoped List

/-! ## Settings -/

namespace MemorySink

/-- The sinks have the same shards, the same latency and refuse the same records. -/
structure SameSettings (sink origin : MemorySink) : Prop where
  shards : sink.shards = origin.shards
  latency : sink.latency = origin.latency
  refuses : sink.refuses = origin.refuses

variable {sink origin : MemorySink}

theorem SameSettings.record_eq (h : sink.SameSettings origin) (now n : Nat) (d : Delivery) :
    sink.record now n d = origin.record now n d := by
  rw [record, record, h.shards, h.latency]

theorem SameSettings.outcomeOf_eq (h : sink.SameSettings origin) (record : InFlight) :
    sink.outcomeOf record = origin.outcomeOf record := by
  rw [outcomeOf, outcomeOf, h.refuses]

theorem SameSettings.complete (h : sink.SameSettings origin) (record : InFlight) :
    (sink.complete record).2.SameSettings origin := by
  unfold MemorySink.complete
  split
  · exact ⟨h.shards, h.latency, h.refuses⟩
  · exact ⟨h.shards, h.latency, h.refuses⟩

theorem complete_fst (sink : MemorySink) (record : InFlight) :
    (sink.complete record).1 = sink.outcomeOf record := by
  unfold complete
  split
  · exact Eq.symm ‹_›
  · exact Eq.symm ‹_›

theorem complete_flying (sink : MemorySink) (record : InFlight) :
    (sink.complete record).2.flying = sink.flying.erase record := by
  unfold complete
  split <;> rfl

theorem complete_peak (sink : MemorySink) (record : InFlight) :
    (sink.complete record).2.peak = sink.peak := by
  unfold complete
  split <;> rfl

end MemorySink

/-! ## What a handle is told -/

/-- What a delivery puts in flight at some time; there is such a shard. -/
def InFlight.IsOf (record : InFlight) (origin : MemorySink) (n : Nat) (d : Delivery) : Prop :=
  d.target.number origin.shards < origin.shards ∧ ∃ now, record = origin.record now n d

/-- A job has the record of its delivery and the outcome of that record, and its handle is told when
nothing is left to do. -/
def MemoryJob.Sound (origin : MemorySink) (n : Nat) (job : MemoryJob) : Prop :=
  match job.stage with
  | .called => job.handle = .fresh
  | .queueing record | .queued record | .flying record | .ending record =>
    record.IsOf origin n job.delivery ∧ job.handle = .fresh
  | .ended record outcome | .telling record outcome =>
    record.IsOf origin n job.delivery ∧ outcome = origin.outcomeOf record ∧ job.handle = .fresh
  | .closed record outcome =>
    record.IsOf origin n job.delivery ∧ outcome = origin.outcomeOf record ∧
      job.handle = .draining outcome []
  | .astray =>
    origin.shards ≤ job.delivery.target.number origin.shards ∧
      job.handle = .resolved (.failed
        (.unknownShard job.delivery.stream (job.delivery.target.number origin.shards)))

variable {s s' : MemorySession} {origin : MemorySink} {n : Nat} {job job' : MemoryJob}

theorem MemoryMove.sound (h : MemoryMove s n job job' s') (hsettings : s.sink.SameSettings origin)
    (hjob : job.Sound origin n) : job'.Sound origin n := by
  cases h with
  | miss d handle hshard =>
      rw [hsettings.shards] at hshard ⊢
      exact ⟨hshard, rfl⟩
  | enter d handle now hfree hshard =>
      rw [hsettings.shards] at hshard
      exact ⟨⟨hshard, now, hsettings.record_eq now n d⟩, hjob⟩
  | queue d handle record => exact hjob
  | leave d handle record => exact hjob
  | enterAgain d handle record hfree => exact hjob
  | complete d handle record =>
      refine ⟨hjob.1, ?_, hjob.2⟩
      rw [MemorySink.complete_fst, hsettings.outcomeOf_eq]
  | leaveAgain d handle record outcome => exact hjob
  | tell d handle handle' record outcome round htell =>
      obtain ⟨hrecord, houtcome, rfl⟩ := hjob
      refine ⟨hrecord, houtcome, ?_⟩
      cases htell
      rfl
  | tellAgain d handle record outcome htell =>
      obtain ⟨-, -, rfl⟩ := hjob
      cases htell

/-! ## The lock -/

namespace MemorySession

/-- The job that has the lock is the one that says so, and it alone can be ahead of what all see. -/
structure Locking (s : MemorySession) : Prop where
  holder : ∀ (n : Nat) (job : MemoryJob), s.jobs[n]? = some job →
    (job.stage.locks = true ↔ s.locked = some n)
  held : ∀ n, s.locked = some n → n < s.jobs.length
  shown : s.sink = s.latest ∨
    ∃ (n : Nat) (job : MemoryJob), s.jobs[n]? = some job ∧ job.stage.ahead = true

end MemorySession

theorem MemoryStage.locks_of_ahead {stage : MemoryStage} (h : stage.ahead = true) :
    stage.locks = true := by
  cases stage <;> simp_all [ahead, locks]

namespace MemorySession.Locking

/-- Where no job has the lock, all see what has been published. -/
theorem sink_eq (h : s.Locking) (hfree : s.locked = none) : s.sink = s.latest := by
  rcases h.shown with hsame | ⟨m, other, hother, hahead⟩
  · exact hsame
  · have hholder := (h.holder m other hother).mp (MemoryStage.locks_of_ahead hahead)
    rw [hfree] at hholder
    cases hholder

/-- A job that has the lock and is not ahead itself sees what has been published. -/
theorem sink_eq_of_locks (h : s.Locking) (hjob : s.jobs[n]? = some job)
    (hlocks : job.stage.locks = true) (hbehind : job.stage.ahead = false) : s.sink = s.latest := by
  rcases h.shown with hsame | ⟨m, other, hother, hahead⟩
  · exact hsame
  · have hholder := (h.holder m other hother).mp (MemoryStage.locks_of_ahead hahead)
    have hholder' := (h.holder n job hjob).mp hlocks
    obtain rfl : m = n := Option.some.inj (hholder.symm.trans hholder')
    rw [hjob] at hother
    cases hother
    rw [hbehind] at hahead
    cases hahead

end MemorySession.Locking

/-- A move that takes the lock finds it free, one that gives it back has it, and the others leave it. -/
theorem MemoryMove.locked (h : MemoryMove s n job job' s') :
    (s.locked = none ∧ s'.locked = some n ∧ job.stage.locks = false ∧ job'.stage.locks = true) ∨
    (s'.locked = none ∧ job.stage.locks = true ∧ job'.stage.locks = false) ∨
    (s'.locked = s.locked ∧ job'.stage.locks = job.stage.locks) := by
  cases h with
  | enter d handle now hfree hshard => exact .inl ⟨hfree, rfl, rfl, rfl⟩
  | enterAgain d handle record hfree => exact .inl ⟨hfree, rfl, rfl, rfl⟩
  | leave d handle record => exact .inr (.inl ⟨rfl, rfl, rfl⟩)
  | leaveAgain d handle record outcome => exact .inr (.inl ⟨rfl, rfl, rfl⟩)
  | _ => exact .inr (.inr ⟨rfl, rfl⟩)

/-- A move that publishes is ahead, one that gives the lock back shows what it has done, and the
others change nothing of the sink. -/
theorem MemoryMove.shown (h : MemoryMove s n job job' s') :
    job'.stage.ahead = true ∨ s'.sink = s'.latest ∨
    (s'.sink = s.sink ∧ s'.latest = s.latest ∧ job.stage.ahead = false) := by
  cases h with
  | queue d handle record => exact .inl rfl
  | complete d handle record => exact .inl rfl
  | leave d handle record => exact .inr (.inl rfl)
  | leaveAgain d handle record outcome => exact .inr (.inl rfl)
  | _ => exact .inr (.inr ⟨rfl, rfl, rfl⟩)

theorem MemorySession.Locking.move (h : s.Locking) (hjob : s.jobs[n]? = some job)
    (hmove : MemoryMove s n job job' s') : { s' with jobs := s.jobs.set n job' }.Locking := by
  have hset := getElem?_set_same hjob job'
  have hother : ∀ m, n ≠ m → (s.jobs.set n job')[m]? = s.jobs[m]? :=
    fun m hne => List.getElem?_set_ne hne
  refine ⟨?_, ?_, ?_⟩
  · intro m other hmem
    by_cases hm : n = m
    · subst hm
      obtain rfl : job' = other := Option.some.inj (hset.symm.trans hmem)
      have hholder := h.holder n job hjob
      rcases hmove.locked with ⟨-, htaken, -, hlocks⟩ | ⟨hfree, -, hlocks⟩ | ⟨hsame, hlocks⟩
      · simp [htaken, hlocks]
      · simp [hfree, hlocks]
      · simpa [hsame, hlocks] using hholder
    · have hholder := h.holder m other ((hother m hm).symm.trans hmem)
      rcases hmove.locked with ⟨hfree, htaken, -, -⟩ | ⟨hfree, hlocks, -⟩ | ⟨hsame, -⟩
      · simpa [hfree, htaken, hm] using hholder
      · have hown := (h.holder n job hjob).mp hlocks
        simpa [hfree, hown, hm] using hholder
      · simpa [hsame] using hholder
  · intro m hlocked
    rw [List.length_set]
    obtain ⟨hlt, -⟩ := List.getElem?_eq_some_iff.mp hjob
    rcases hmove.locked with ⟨-, htaken, -, -⟩ | ⟨hfree, -, -⟩ | ⟨hsame, -⟩
    · obtain rfl : n = m := Option.some.inj (htaken.symm.trans hlocked)
      exact hlt
    · exact absurd (hfree.symm.trans hlocked) (by simp)
    · exact h.held m (hsame.symm.trans hlocked)
  · rcases hmove.shown with hahead | hsame | ⟨hsink, hlatest, hbehind⟩
    · exact .inr ⟨n, job', hset, hahead⟩
    · exact .inl hsame
    · rcases h.shown with hsame | ⟨m, other, hmem, hahead⟩
      · exact .inl (by rw [hsink, hlatest, hsame])
      · have hm : n ≠ m := by
          rintro rfl
          rw [hjob] at hmem
          cases hmem
          rw [hbehind] at hahead
          cases hahead
        exact .inr ⟨m, other, (hother m hm).trans hmem, hahead⟩

/-! ## Where each job is counted -/

/-- A sink and a published number have each of some jobs where it is. -/
structure MemorySink.Counts (sink : MemorySink) (watch : Nat) (jobs : List MemoryJob) : Prop where
  flying : sink.flying.Perm (jobs.filterMap fun job => job.stage.flying?)
  delivered : sink.delivered.Perm (jobs.filterMap MemoryJob.delivered?)
  failed : sink.failed = jobs.countP MemoryJob.refused
  watch : watch = sink.flying.length
  peak : sink.flying.length ≤ sink.peak

namespace MemorySink.Counts

variable {sink : MemorySink} {watch : Nat} {jobs jobs' others : List MemoryJob}

theorem of_perm (h : sink.Counts watch jobs) (hjobs : jobs.Perm jobs') : sink.Counts watch jobs' := by
  refine ⟨h.flying.trans (hjobs.filterMap _), h.delivered.trans (hjobs.filterMap _), ?_, h.watch,
    h.peak⟩
  rw [h.failed, hjobs.countP_eq]

/-- A job that is counted as before. -/
theorem of_same (h : sink.Counts watch (job :: others))
    (hflying : job'.stage.flying? = job.stage.flying?)
    (hsettled : job'.stage.settled? = job.stage.settled?) : sink.Counts watch (job' :: others) := by
  have hdelivered : job'.delivered? = job.delivered? := by
    rw [MemoryJob.delivered?, MemoryJob.delivered?, hsettled]
  have hrefused : job'.refused = job.refused := by
    rw [MemoryJob.refused, MemoryJob.refused, hsettled]
  refine ⟨?_, ?_, ?_, h.watch, h.peak⟩
  · simpa only [List.filterMap_cons, hflying] using h.flying
  · simpa only [List.filterMap_cons, hdelivered] using h.delivered
  · simpa only [List.countP_cons, hrefused] using h.failed

/-- A job whose record is put in flight. -/
theorem enqueue {d : Delivery} {handle : Completion Unit} {record : InFlight}
    (h : sink.Counts watch (⟨d, .queueing record, handle⟩ :: others)) :
    (sink.enqueue record).Counts (sink.enqueue record).flying.length
      (⟨d, .queued record, handle⟩ :: others) := by
  refine ⟨?_, ?_, ?_, rfl, ?_⟩
  · calc sink.flying ++ [record]
        ~ record :: sink.flying := List.perm_append_singleton ..
      _ ~ record :: others.filterMap fun job => job.stage.flying? := by
          exact List.Perm.cons _ h.flying
  · exact h.delivered
  · exact h.failed
  · show (sink.flying ++ [record]).length ≤ max sink.peak (sink.flying.length + 1)
    rw [List.length_append, List.length_singleton]
    exact Nat.le_max_right ..

/-- A job whose record is completed. -/
theorem complete {d : Delivery} {handle : Completion Unit} {record : InFlight}
    (h : sink.Counts watch (⟨d, .ending record, handle⟩ :: others)) :
    (sink.complete record).2.Counts (sink.complete record).2.flying.length
      (⟨d, .ended record (sink.complete record).1, handle⟩ :: others) := by
  have hflying : (sink.flying.erase record).Perm
      (others.filterMap fun job => job.stage.flying?) := by
    have hflying : sink.flying ~ record :: others.filterMap fun job => job.stage.flying? := h.flying
    have herase := hflying.erase record
    rwa [List.erase_cons_head] at herase
  have hpeak : (sink.complete record).2.flying.length ≤ (sink.complete record).2.peak := by
    rw [MemorySink.complete_flying, MemorySink.complete_peak]
    exact Nat.le_trans List.length_erase_le h.peak
  refine ⟨?_, ?_, ?_, rfl, hpeak⟩
  · rw [MemorySink.complete_flying]
    exact hflying
  · unfold MemorySink.complete
    split
    · calc sink.delivered ++ [record.delivered]
          ~ record.delivered :: sink.delivered := List.perm_append_singleton ..
        _ ~ record.delivered :: others.filterMap MemoryJob.delivered? := by
            exact List.Perm.cons _ h.delivered
    · exact h.delivered
  · have hfailed : sink.failed = others.countP MemoryJob.refused := h.failed
    unfold MemorySink.complete
    split
    · exact hfailed
    · rw [List.countP_cons_of_pos rfl, ← hfailed]

end MemorySink.Counts

/-! ## Every schedule -/

/-- A session that keeps its settings, its lock, its books and its promises. -/
structure MemorySession.Lawful (origin : MemorySink) (s : MemorySession) : Prop where
  sink : s.sink.SameSettings origin
  latest : s.latest.SameSettings origin
  locking : s.Locking
  sound : ∀ (n : Nat) (job : MemoryJob), s.jobs[n]? = some job → job.Sound origin n
  counts : s.latest.Counts s.watch s.jobs

/-- What a move does to the sink that has been published: nothing, or a record is put in flight, or a
record is completed. -/
theorem MemoryMove.latest (h : MemoryMove s n job job' s') (hlocking : s.Locking)
    (hjob : s.jobs[n]? = some job) :
    (s'.latest = s.latest ∧ s'.watch = s.watch) ∨
    (∃ record, s'.latest = s.latest.enqueue record ∧ s'.watch = s'.latest.flying.length) ∨
    ∃ record, s'.latest = (s.latest.complete record).2 ∧ s'.watch = s'.latest.flying.length := by
  cases h with
  | queue d handle record =>
      refine .inr (.inl ⟨record, ?_, rfl⟩)
      rw [hlocking.sink_eq_of_locks hjob rfl rfl]
  | complete d handle record =>
      refine .inr (.inr ⟨record, ?_, rfl⟩)
      rw [hlocking.sink_eq_of_locks hjob rfl rfl]
  | _ => exact .inl ⟨rfl, rfl⟩

theorem MemoryMove.counts (h : MemoryMove s n job job' s') (hlocking : s.Locking)
    (hjob : s.jobs[n]? = some job) {others : List MemoryJob}
    (hcounts : s.latest.Counts s.watch (job :: others)) :
    s'.latest.Counts s'.watch (job' :: others) := by
  cases h with
  | queue d handle record =>
      dsimp only
      rw [hlocking.sink_eq_of_locks hjob rfl rfl]
      exact hcounts.enqueue
  | complete d handle record =>
      dsimp only
      rw [hlocking.sink_eq_of_locks hjob rfl rfl]
      exact hcounts.complete
  | _ => exact hcounts.of_same rfl rfl

namespace MemorySession

variable {sink : MemorySink}

theorem lawful_fresh (sink : MemorySink) (hflying : sink.flying = []) (hdelivered : sink.delivered = [])
    (hfailed : sink.failed = 0) : (fresh sink).Lawful sink := by
  refine ⟨⟨rfl, rfl, rfl⟩, ⟨rfl, rfl, rfl⟩, ⟨?_, ?_, .inl rfl⟩, ?_, ?_⟩
  · intro n job hjob
    cases hjob
  · intro n hlocked
    cases hlocked
  · intro n job hjob
    cases hjob
  · refine ⟨?_, ?_, hfailed, ?_, ?_⟩
    · exact hflying ▸ List.Perm.nil
    · exact hdelivered ▸ List.Perm.nil
    · simp [fresh, hflying]
    · simp [fresh, hflying]

/-- Jobs that are called for come last and have done nothing. -/
theorem getElem?_call (s : MemorySession) (deliveries : List Delivery) {n : Nat} {job : MemoryJob}
    (h : (s.call deliveries).jobs[n]? = some job) :
    s.jobs[n]? = some job ∨ (s.jobs.length ≤ n ∧ ∃ d ∈ deliveries, job = { delivery := d }) := by
  simp only [call] at h
  by_cases hlt : n < s.jobs.length
  · rw [List.getElem?_append_left hlt] at h
    exact .inl h
  · rw [List.getElem?_append_right (Nat.le_of_not_lt hlt), List.getElem?_map] at h
    obtain ⟨d, hd, hnew⟩ := Option.map_eq_some_iff.mp h
    exact .inr ⟨Nat.le_of_not_lt hlt, d, List.mem_of_getElem? hd, hnew.symm⟩

theorem Lawful.call (h : s.Lawful origin) (deliveries : List Delivery) :
    (s.call deliveries).Lawful origin := by
  refine ⟨h.sink, h.latest, ⟨?_, ?_, ?_⟩, ?_, ?_⟩
  · intro n job hjob
    rcases getElem?_call s deliveries hjob with hold | ⟨hlen, d, -, rfl⟩
    · exact h.locking.holder n job hold
    · constructor
      · intro hlocks
        cases hlocks
      · intro hlocked
        exact absurd (h.locking.held n hlocked) (Nat.not_lt.mpr hlen)
  · intro n hlocked
    have hlt := h.locking.held n hlocked
    simp only [MemorySession.call, List.length_append]
    omega
  · rcases h.locking.shown with hsame | ⟨n, job, hjob, hahead⟩
    · exact .inl hsame
    · obtain ⟨hlt, -⟩ := List.getElem?_eq_some_iff.mp hjob
      refine .inr ⟨n, job, ?_, hahead⟩
      simp only [MemorySession.call]
      rw [List.getElem?_append_left hlt, hjob]
  · intro n job hjob
    rcases getElem?_call s deliveries hjob with hold | ⟨-, d, -, rfl⟩
    · exact h.sound n job hold
    · exact rfl
  · obtain ⟨hflying, hdelivered, hfailed, hwatch, hpeak⟩ := h.counts
    -- A job that has done nothing is counted nowhere.
    refine ⟨?_, ?_, ?_, hwatch, hpeak⟩
    · simpa [MemorySession.call, List.filterMap_append, Function.comp_def, MemoryStage.flying?]
        using hflying
    · simpa [MemorySession.call, List.filterMap_append, Function.comp_def, MemoryJob.delivered?,
        MemoryStage.settled?] using hdelivered
    · simpa [MemorySession.call, List.countP_append, Function.comp_def, MemoryJob.refused,
        MemoryStage.settled?] using hfailed

theorem Lawful.step (h : s.Lawful origin) (n now : Nat) : (s.step n now).Lawful origin := by
  rcases s.step_moves n now with ⟨hsame, -⟩ | ⟨job, job', s', hjob, hmove, hstep⟩
  · rwa [hsame]
  · rw [hstep]
    obtain ⟨others, hperm, hset⟩ := perm_set hjob
    refine ⟨?_, ?_, h.locking.move hjob hmove, ?_, ?_⟩
    · cases hmove with
      | leave d handle record => exact h.latest
      | leaveAgain d handle record outcome => exact h.latest
      | _ => exact h.sink
    · rcases hmove.latest h.locking hjob with
        ⟨hsame, -⟩ | ⟨record, hlatest, -⟩ | ⟨record, hlatest, -⟩
      · exact hsame ▸ h.latest
      · exact hlatest ▸ ⟨h.latest.shards, h.latest.latency, h.latest.refuses⟩
      · exact hlatest ▸ h.latest.complete record
    · intro m other hother
      by_cases hm : n = m
      · subst hm
        have hset := getElem?_set_same hjob job'
        obtain rfl : job' = other := Option.some.inj (hset.symm.trans hother)
        exact hmove.sound h.sink (h.sound n job hjob)
      · exact h.sound m other ((List.getElem?_set_ne hm).symm.trans hother)
    · exact (hmove.counts h.locking hjob (h.counts.of_perm hperm)).of_perm (hset job').symm

/-- What flushes report is no part of what a session keeps. -/
theorem Lawful.report (h : s.Lawful origin) (flushes : List Bool) :
    ({ s with flushes } : MemorySession).Lawful origin :=
  ⟨h.sink, h.latest, ⟨h.locking.holder, h.locking.held, h.locking.shown⟩, h.sound, h.counts⟩

theorem Lawful.act (h : s.Lawful origin) (action : MemoryAction) : (s.act action).Lawful origin := by
  cases action with
  | dispatch stream key payload => exact h.call _
  | dispatchToShard stream shard payload => exact h.call _
  | broadcast stream payload => exact h.call _
  | step n now => exact h.step n now
  | flush => exact h.report _
  | look n =>
      simp only [MemorySession.act]
      split
      · exact h.report _
      · exact h

theorem lawful_run (shards latency : Nat) (refuses : Bytes → Bool) (schedule : List MemoryAction) :
    (run (.fresh shards latency refuses) schedule).Lawful (.fresh shards latency refuses) := by
  induction schedule using List.reverseRecOn with
  | nil => exact lawful_fresh _ rfl rfl rfl
  | append_singleton schedule action ih =>
      rw [run_concat]
      exact ih.act action

end MemorySession

end EventReplay
