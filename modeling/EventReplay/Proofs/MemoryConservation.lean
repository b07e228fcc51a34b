import Mathlib.Algebra.Ring.Nat
import Mathlib.Data.List.Induction
import Mathlib.Order.Bounds.Basic
import EventReplay.Proofs.MemoryBooks

/-!
# A sink in memory loses and doubles nothing

Whatever is called for and however jobs take turns, each record that was accepted is delivered, refused
or in flight, and the sink's peak is the most that were ever in flight. A handle is told once, and what
it is told is what became of its record. A flush returns when nothing is in flight
(`MemorySession.conserves_records`).
-/

set_option autoImplicit false

namespace EventReplay

variable {s s' : MemorySession} {origin : MemorySink} {n : Nat} {job job' : MemoryJob}

/-! ## How far a job is -/

theorem MemoryMove.left_lt (h : MemoryMove s n job job' s') : job'.stage.left < job.stage.left := by
  cases h <;> simp [MemoryStage.left]

theorem MemoryStage.left_ne_zero {stage : MemoryStage} (h : stage.locks = true) :
    stage.left ≠ 0 := by
  cases stage <;> simp_all [locks, left]

/-- A handle is told with the last step of its job. -/
theorem MemoryJob.Sound.untold_iff (h : job.Sound origin n) :
    job.handle.outcome? = none ↔ 0 < job.stage.left := by
  obtain ⟨d, stage, handle⟩ := job
  cases stage with
  | closed record outcome => simp [show handle = _ from h.2.2, Completion.outcome?, MemoryStage.left]
  | astray => simp [show handle = _ from h.2, Completion.outcome?, MemoryStage.left]
  | called => simp [show handle = _ from h, Completion.fresh, Completion.outcome?, MemoryStage.left]
  | queueing record | queued record | flying record | ending record =>
      simp [show handle = _ from h.2, Completion.fresh, Completion.outcome?, MemoryStage.left]
  | ended record outcome | telling record outcome =>
      simp [show handle = _ from h.2.2, Completion.fresh, Completion.outcome?, MemoryStage.left]

/-- What a job has been told and what has been made of its record stays so. -/
structure MemoryJob.Precedes (job job' : MemoryJob) : Prop where
  delivery : job'.delivery = job.delivery
  accepted : job.stage.accepted = true → job'.stage.accepted = true
  told : ∀ outcome, job.handle.outcome? = some outcome → job'.handle.outcome? = some outcome

theorem MemoryJob.Precedes.refl (job : MemoryJob) : job.Precedes job := ⟨rfl, id, fun _ => id⟩

theorem MemoryJob.Precedes.trans {first second third : MemoryJob} (h : first.Precedes second)
    (h' : second.Precedes third) : first.Precedes third := by
  refine ⟨h'.delivery.trans h.delivery, fun haccepted => h'.accepted (h.accepted haccepted), ?_⟩
  intro outcome htold
  exact h'.told outcome (h.told outcome htold)

theorem MemoryMove.precedes (h : MemoryMove s n job job' s') (hjob : job.Sound origin n) :
    job.Precedes job' := by
  have huntold : ∀ outcome, job.handle.outcome? ≠ some outcome := by
    intro outcome htold
    have hleft := h.left_lt
    have hnone := hjob.untold_iff.mpr (by omega)
    rw [hnone] at htold
    cases htold
  refine ⟨?_, ?_, fun outcome htold => absurd htold (huntold outcome)⟩
  · cases h <;> rfl
  · cases h <;> simp [MemoryStage.accepted, MemoryStage.flying?, MemoryStage.settled?]

namespace MemorySession

theorem Lawful.precedes_act (h : s.Lawful origin) (hjob : s.jobs[n]? = some job)
    (action : MemoryAction) : ∃ job', (s.act action).jobs[n]? = some job' ∧ job.Precedes job' := by
  have hcall : ∀ deliveries, (s.call deliveries).jobs[n]? = some job := by
    intro deliveries
    obtain ⟨hlt, -⟩ := List.getElem?_eq_some_iff.mp hjob
    rw [MemorySession.call, List.getElem?_append_left hlt, hjob]
  cases action with
  | dispatch stream key payload => exact ⟨job, hcall _, .refl job⟩
  | dispatchToShard stream shard payload => exact ⟨job, hcall _, .refl job⟩
  | broadcast stream payload => exact ⟨job, hcall _, .refl job⟩
  | flush => exact ⟨job, hjob, .refl job⟩
  | look m =>
      refine ⟨job, ?_, .refl job⟩
      simp only [MemorySession.act]
      split <;> exact hjob
  | step m now =>
      simp only [MemorySession.act]
      rcases s.step_moves m now with ⟨hsame, -⟩ | ⟨other, other', s', hother, hmove, hstep⟩
      · rw [hsame]
        exact ⟨job, hjob, .refl job⟩
      · rw [hstep]
        by_cases hm : m = n
        · subst hm
          obtain rfl : job = other := Option.some.inj (hjob.symm.trans hother)
          exact ⟨other', getElem?_set_same hjob other', hmove.precedes (h.sound m job hjob)⟩
        · exact ⟨job, (List.getElem?_set_ne hm).trans hjob, .refl job⟩

theorem Lawful.precedes (h : s.Lawful origin) (hjob : s.jobs[n]? = some job)
    (later : List MemoryAction) :
    ∃ job', (later.foldl MemorySession.act s).jobs[n]? = some job' ∧ job.Precedes job' := by
  induction later generalizing s job with
  | nil => exact ⟨job, hjob, .refl job⟩
  | cons action later ih =>
      obtain ⟨job', hjob', hprecedes⟩ := h.precedes_act hjob action
      obtain ⟨job'', hjob'', hprecedes'⟩ := ih (h.act action) hjob'
      exact ⟨job'', hjob'', hprecedes.trans hprecedes'⟩

/-! ## To the end -/

/-- The steps that are left to all jobs. -/
def left (s : MemorySession) : Nat := (s.jobs.map fun job => job.stage.left).sum

/-- While a job has steps left, one of the jobs can take one. -/
theorem Lawful.exists_step (h : s.Lawful origin) (hleft : s.left ≠ 0) :
    ∃ n, (s.step n 0).left < s.left := by
  have hready : ∃ (n : Nat) (job : MemoryJob), s.jobs[n]? = some job ∧ ¬ s.Rests job := by
    cases hlocked : s.locked with
    | some n =>
        obtain ⟨job, hjob⟩ : ∃ job, s.jobs[n]? = some job :=
          ⟨_, List.getElem?_eq_getElem (h.locking.held n hlocked)⟩
        have hlocks := (h.locking.holder n job hjob).mpr hlocked
        refine ⟨n, job, hjob, ?_⟩
        rintro (hdone | ⟨-, hfree⟩)
        · exact absurd hdone (MemoryStage.left_ne_zero hlocks)
        · rw [hlocks] at hfree
          cases hfree
    | none =>
        by_contra hall
        apply hleft
        rw [left, List.sum_eq_zero_iff_forall_eq_nat]
        intro k hk
        obtain ⟨job, hmem, rfl⟩ := List.mem_map.mp hk
        obtain ⟨n, hjob⟩ := List.getElem?_of_mem hmem
        by_contra hmore
        refine hall ⟨n, job, hjob, ?_⟩
        rintro (hdone | ⟨hheld, -⟩)
        · exact hmore hdone
        · exact hheld hlocked
  obtain ⟨n, job, hjob, hready⟩ := hready
  refine ⟨n, ?_⟩
  rcases s.step_moves n 0 with ⟨-, hrests⟩ | ⟨job₁, job', s', hjob₁, hmove, hstep⟩
  · exact absurd (hrests job hjob) hready
  · obtain ⟨others, hperm, hset⟩ := perm_set hjob₁
    have hbefore := (hperm.map fun job => job.stage.left).sum_nat
    have hafter := ((hset job').map fun job => job.stage.left).sum_nat
    have hlt := hmove.left_lt
    rw [hstep]
    simp only [left, List.map_cons, List.sum_cons] at hbefore hafter ⊢
    omega

/-- All jobs can be brought to their end, and then every handle has been told. -/
theorem Lawful.exists_end (h : s.Lawful origin) :
    ∃ steps : List Nat,
      ((steps.map fun n => MemoryAction.step n 0).foldl MemorySession.act s).left = 0 := by
  induction hleft : s.left using Nat.strong_induction_on generalizing s with
  | _ k ih =>
      by_cases hdone : s.left = 0
      · exact ⟨[], hdone⟩
      · obtain ⟨n, hlt⟩ := h.exists_step hdone
        obtain ⟨steps, hend⟩ := ih (s.step n 0).left (by omega) (h.step n 0) rfl
        exact ⟨n :: steps, hend⟩

/-! ## The peak -/

theorem Lawful.peak_act (h : s.Lawful origin) (action : MemoryAction) :
    s.latest.peak ≤ (s.act action).latest.peak ∧
      ((s.act action).latest.peak = s.latest.peak ∨
        (s.act action).latest.peak = (s.act action).latest.flying.length) := by
  have hsame : (s.act action).latest = s.latest →
      s.latest.peak ≤ (s.act action).latest.peak ∧
        ((s.act action).latest.peak = s.latest.peak ∨
          (s.act action).latest.peak = (s.act action).latest.flying.length) := by
    intro hlatest
    rw [hlatest]
    exact ⟨Nat.le_refl _, .inl rfl⟩
  cases action with
  | step n now =>
      simp only [MemorySession.act] at hsame ⊢
      rcases s.step_moves n now with ⟨hrest, -⟩ | ⟨job, job', s', hjob, hmove, hstep⟩
      · exact hsame (by rw [hrest])
      · rw [hstep] at hsame ⊢
        rcases hmove.latest h.locking hjob with
          ⟨hrest, -⟩ | ⟨record, hlatest, -⟩ | ⟨record, hlatest, -⟩
        · exact hsame hrest
        · dsimp only
          rw [hlatest]
          have hlength : (s.latest.enqueue record).flying.length = s.latest.flying.length + 1 := by
            simp [MemorySink.enqueue]
          have hpeak : (s.latest.enqueue record).peak =
              max s.latest.peak (s.latest.flying.length + 1) := rfl
          omega
        · dsimp only
          rw [hlatest, MemorySink.complete_peak]
          exact ⟨Nat.le_refl _, .inl rfl⟩
  | look n =>
      apply hsame
      simp only [MemorySession.act]
      split <;> rfl
  | _ => exact hsame rfl

theorem isGreatest_peak (shards latency : Nat) (refuses : Bytes → Bool)
    (schedule : List MemoryAction) :
    IsGreatest
      {k | ∃ before, before <+: schedule ∧
        k = (run (.fresh shards latency refuses) before).latest.flying.length}
      (run (.fresh shards latency refuses) schedule).latest.peak := by
  induction schedule using List.reverseRecOn with
  | nil =>
      refine ⟨⟨[], List.prefix_refl _, rfl⟩, ?_⟩
      rintro k ⟨before, hprefix, rfl⟩
      rw [List.prefix_nil.mp hprefix]
      exact Nat.le_refl _
  | append_singleton schedule action ih =>
      obtain ⟨⟨reached, hreached, hpeak⟩, hbound⟩ := ih
      have hlawful := lawful_run shards latency refuses (schedule ++ [action])
      obtain ⟨hgrows, hnew⟩ := (lawful_run shards latency refuses schedule).peak_act action
      rw [← run_concat] at hgrows hnew
      constructor
      · rcases hnew with hsame | hnow
        · exact ⟨reached, hreached.trans (List.prefix_append ..), hsame.trans hpeak⟩
        · exact ⟨schedule ++ [action], List.prefix_refl _, hnow⟩
      · rintro k ⟨before, hprefix, rfl⟩
        rcases List.prefix_concat_iff.mp hprefix with rfl | hearlier
        · exact hlawful.counts.peak
        · exact Nat.le_trans (hbound ⟨before, hearlier, rfl⟩) hgrows

end MemorySession

/-! ## What the books add up to -/

theorem countP_accepted (jobs : List MemoryJob) :
    jobs.countP (fun job => job.stage.accepted) =
      (jobs.filterMap MemoryJob.delivered?).length + jobs.countP MemoryJob.refused +
        (jobs.filterMap fun job => job.stage.flying?).length := by
  induction jobs with
  | nil => rfl
  | cons job jobs ih =>
      obtain ⟨d, stage, handle⟩ := job
      rw [List.countP_cons, List.countP_cons, List.filterMap_cons, List.filterMap_cons, ih]
      cases stage with
      | ended record outcome | telling record outcome | closed record outcome =>
          cases outcome <;> simp [MemoryStage.accepted, MemoryStage.flying?, MemoryStage.settled?,
            MemoryJob.delivered?, MemoryJob.refused] <;> omega
      | _ =>
          simp [MemoryStage.accepted, MemoryStage.flying?, MemoryStage.settled?,
            MemoryJob.delivered?, MemoryJob.refused] <;> omega

namespace MemorySession

/-- What has been accepted is delivered, refused or in flight. -/
theorem Lawful.countP_accepted (h : s.Lawful origin) :
    s.jobs.countP (fun job => job.stage.accepted) =
      s.latest.delivered.length + s.latest.failed + s.latest.flying.length := by
  rw [EventReplay.countP_accepted, h.counts.delivered.length_eq, h.counts.flying.length_eq,
    h.counts.failed]

/-- Where nothing is in flight, all that has been accepted is settled. -/
theorem Lawful.settled_of_accepted (h : s.Lawful origin) (hnone : s.latest.flying = [])
    (hjob : s.jobs[n]? = some job) (haccepted : job.stage.accepted = true) :
    job.stage.settled?.isSome = true := by
  have hempty : s.jobs.filterMap (fun job => job.stage.flying?) = [] :=
    (hnone ▸ h.counts.flying).nil_eq.symm
  have hlanded : job.stage.flying? = none :=
    List.filterMap_eq_nil_iff.mp hempty job (List.mem_of_getElem? hjob)
  simpa [MemoryStage.accepted, hlanded] using haccepted

/-- A flush returns only when it finds that nothing is in flight. -/
theorem Lawful.flush_returns (h : s.Lawful origin) {action : MemoryAction}
    (hwaits : s.flushes[n]? = some false) (hreturned : (s.act action).flushes[n]? = some true) :
    s.latest.flying = [] := by
  have hsame : (s.act action).flushes = s.flushes → s.latest.flying = [] := by
    intro hsame
    rw [hsame, hwaits] at hreturned
    cases hreturned
  cases action with
  | step m now =>
      apply hsame
      simp only [MemorySession.act]
      rcases s.step_moves m now with ⟨hrest, -⟩ | ⟨job, job', s', hjob, hmove, hstep⟩
      · rw [hrest]
      · rw [hstep]
        cases hmove <;> rfl
  | flush =>
      obtain ⟨hlt, -⟩ := List.getElem?_eq_some_iff.mp hwaits
      simp only [MemorySession.act, List.getElem?_append_left hlt, hwaits] at hreturned
      cases hreturned
  | look m =>
      by_cases hzero : s.watch = 0
      · exact List.length_eq_zero_iff.mp (h.counts.watch.symm.trans hzero)
      · exact hsame (by simp [MemorySession.act, hzero])
  | _ => exact hsame rfl

end MemorySession

/-! ## What a handle is told -/

/-- What a handle may be told: that its record was delivered if it was, that it was refused if it is to
be refused, and that there is no such shard if there is not. -/
structure MemoryJob.Deserves (origin : MemorySink) (job : MemoryJob) (outcome : Outcome) : Prop where
  written : outcome = .written ↔ job.delivered? = some ⟨job.delivery.stream,
    job.delivery.target.number origin.shards, job.delivery.target.key?, job.delivery.payload⟩
  delivered : job.delivered? ≠ none → outcome = .written
  refused : outcome = .failed (.rejected job.delivery.stream "injected failure") ↔
    job.delivery.target.number origin.shards < origin.shards ∧
      origin.refuses job.delivery.payload = true
  unknown : outcome = .failed (.unknownShard job.delivery.stream
    (job.delivery.target.number origin.shards)) ↔
      origin.shards ≤ job.delivery.target.number origin.shards

/-- A handle is told what became of the record of its delivery. -/
theorem MemoryJob.Sound.deserves (h : job.Sound origin n) {outcome : Outcome}
    (htold : job.handle.outcome? = some outcome) : job.Deserves origin outcome := by
  obtain ⟨d, stage, handle⟩ := job
  have hleft : stage.left = 0 := by
    have hsome : handle.outcome? ≠ none := by simp [show handle.outcome? = _ from htold]
    have huntold : handle.outcome? = none ↔ 0 < stage.left := h.untold_iff
    by_contra hmore
    exact hsome (huntold.mpr (Nat.pos_of_ne_zero hmore))
  cases stage with
  | closed record result =>
      obtain ⟨⟨hshard, now, hrecord⟩, hresult, hhandle⟩ := h
      dsimp only at hshard hrecord hhandle htold ⊢
      obtain rfl : result = outcome := by simpa [hhandle, Completion.outcome?] using htold
      have hin : ¬ origin.shards ≤ d.target.number origin.shards := Nat.not_le.mpr hshard
      have hpayload : record.payload = d.payload := by rw [hrecord, MemorySink.record]
      have hstream : record.stream = d.stream := by rw [hrecord, MemorySink.record]
      have hdelivered : record.delivered =
          ⟨d.stream, d.target.number origin.shards, d.target.key?, d.payload⟩ := by
        rw [hrecord, MemorySink.record, InFlight.delivered]
      rw [MemorySink.outcomeOf, hpayload, hstream] at hresult
      cases hrefuses : origin.refuses d.payload with
      | true =>
          constructor <;> simp [hresult, hrefuses, hin, hshard, MemoryJob.delivered?,
            MemoryStage.settled?]
      | false =>
          constructor <;> simp [hresult, hrefuses, hin, MemoryJob.delivered?, MemoryStage.settled?,
            hdelivered]
  | astray =>
      obtain ⟨hshard, hhandle⟩ := h
      dsimp only at hshard hhandle htold ⊢
      obtain rfl : _ = outcome := by simpa [hhandle, Completion.outcome?] using htold
      have hout : ¬ d.target.number origin.shards < origin.shards := Nat.not_lt.mpr hshard
      constructor <;> simp [hshard, hout, MemoryJob.delivered?, MemoryStage.settled?]
  | _ => simp [MemoryStage.left] at hleft

/-- A delivery to a shard that there is not is not accepted. -/
theorem MemoryJob.Sound.stage_of_unknown (h : job.Sound origin n)
    (hshard : origin.shards ≤ job.delivery.target.number origin.shards) :
    job.stage = .called ∨ job.stage = .astray := by
  have hno : ∀ record : InFlight, ¬ record.IsOf origin n job.delivery :=
    fun record hrecord => Nat.not_lt.mpr hshard hrecord.1
  obtain ⟨d, stage, handle⟩ := job
  cases stage with
  | called => exact .inl rfl
  | astray => exact .inr rfl
  | queueing record | queued record | flying record | ending record => exact absurd h.1 (hno record)
  | ended record outcome | telling record outcome | closed record outcome =>
      exact absurd h.1 (hno record)

/-- A delivery to a shard that there is not is told so with one step, which changes nothing else. -/
theorem MemorySession.step_unknown (now : Nat) (hjob : s.jobs[n]? = some job)
    (hcalled : job.stage = .called)
    (hshard : s.sink.shards ≤ job.delivery.target.number s.sink.shards) :
    s.step n now = { s with jobs := s.jobs.set n ⟨job.delivery, .astray, .resolved (.failed
      (.unknownShard job.delivery.stream (job.delivery.target.number s.sink.shards)))⟩ } := by
  have hout : ¬ job.delivery.target.number s.sink.shards < s.sink.shards := Nat.not_lt.mpr hshard
  simp [step, hjob, hcalled, MemorySink.accept, MemorySink.record, hout]

/-! ## Nothing is lost or doubled -/

namespace MemorySession

/-- After every schedule: all find what has been published unless a thread has the lock. What has been
accepted is delivered, refused or in flight, and the peak is the most that ever were in flight. The
records delivered are those of the jobs, each once. A handle is told with the last step of its job, once
and for all, and what it deserves; all handles can be brought to be told. A delivery to a shard that
there is not is never accepted, and telling so changes nothing but its own handle. A flush that returns
finds nothing in flight, so what was ever accepted before is settled. -/
theorem conserves_records (shards latency : Nat) (refuses : Bytes → Bool)
    (schedule : List MemoryAction) :
    let origin := MemorySink.fresh shards latency refuses
    let s := run origin schedule
    (s.locked = none → s.sink = s.latest) ∧
    s.jobs.countP (fun job => job.stage.accepted) =
      s.latest.delivered.length + s.latest.failed + s.latest.flying.length ∧
    IsGreatest {k | ∃ before, before <+: schedule ∧ k = (run origin before).latest.flying.length}
      s.latest.peak ∧
    s.latest.delivered.Perm (s.jobs.filterMap MemoryJob.delivered?) ∧
    (∀ (n : Nat) (job : MemoryJob), s.jobs[n]? = some job →
      (job.handle.outcome? = none ↔ 0 < job.stage.left) ∧
      (∀ outcome, job.handle.outcome? = some outcome → job.Deserves origin outcome) ∧
      (∀ later, ∃ job', (run origin (schedule ++ later)).jobs[n]? = some job' ∧
        job.Precedes job') ∧
      let shard := job.delivery.target.number origin.shards
      (origin.shards ≤ shard → job.stage = .called ∨ job.stage = .astray) ∧
      (∀ now, origin.shards ≤ shard → job.stage = .called →
        run origin (schedule ++ [.step n now]) =
          { s with jobs := s.jobs.set n ⟨job.delivery, .astray,
            .resolved (.failed (.unknownShard job.delivery.stream shard))⟩ })) ∧
    (∃ later, ∀ job ∈ (run origin (schedule ++ later)).jobs, job.handle.outcome? ≠ none) ∧
    (∀ (n : Nat) (action : MemoryAction), s.flushes[n]? = some false →
      (run origin (schedule ++ [action])).flushes[n]? = some true →
      s.latest.flying = [] ∧
        ∀ before, before <+: schedule → ∀ (m : Nat) (job : MemoryJob),
          (run origin before).jobs[m]? = some job → job.stage.accepted = true →
          ∃ job' : MemoryJob, s.jobs[m]? = some job' ∧ job'.delivery = job.delivery ∧
            job'.stage.settled?.isSome = true) := by
  intro origin s
  have hlawful : s.Lawful origin := lawful_run shards latency refuses schedule
  refine ⟨hlawful.locking.sink_eq, hlawful.countP_accepted, isGreatest_peak ..,
    hlawful.counts.delivered, ?_, ?_, ?_⟩
  · intro n job hjob
    have hsound := hlawful.sound n job hjob
    refine ⟨hsound.untold_iff, fun outcome => hsound.deserves, ?_, hsound.stage_of_unknown, ?_⟩
    · intro later
      rw [run_append]
      exact hlawful.precedes hjob later
    · intro now hshard hcalled
      have hshards : s.sink.shards = origin.shards := hlawful.sink.shards
      rw [run_concat, ← hshards]
      rw [← hshards] at hshard
      exact step_unknown now hjob hcalled hshard
  · obtain ⟨steps, hend⟩ := hlawful.exists_end
    refine ⟨steps.map fun n => .step n 0, ?_⟩
    have hlawful' := lawful_run shards latency refuses
      (schedule ++ steps.map fun n => MemoryAction.step n 0)
    rw [← run_append] at hend
    intro job hmem huntold
    obtain ⟨n, hjob⟩ := List.getElem?_of_mem hmem
    have hmore := (hlawful'.sound n job hjob).untold_iff.mp huntold
    have hdone := List.sum_eq_zero_iff_forall_eq_nat.mp hend job.stage.left
      (List.mem_map.mpr ⟨job, hmem, rfl⟩)
    omega
  · intro n action hwaits hreturned
    rw [run_concat] at hreturned
    have hnone := hlawful.flush_returns hwaits hreturned
    refine ⟨hnone, ?_⟩
    intro before hbefore m job hjob haccepted
    obtain ⟨later, rfl⟩ := hbefore
    obtain ⟨job', hjob', hprecedes⟩ :=
      (lawful_run shards latency refuses before).precedes hjob later
    rw [← run_append] at hjob'
    exact ⟨job', hjob', hprecedes.delivery,
      hlawful.settled_of_accepted hnone hjob' (hprecedes.accepted haccepted)⟩

/-- A record that is to be refused: a flush returns as soon as its completion has been published, and
three steps later its handle has been told. -/
theorem conserves_records_refusal :
    (run (.fresh 1 5 fun payload => payload == [1]) [.dispatchToShard "s" 0 [1], .step 0 0, .step 0 0,
      .step 0 0, .flush, .step 0 5, .step 0 5]).latest.flying = [] ∧
    ∃ job, (run (.fresh 1 5 fun payload => payload == [1]) (.dispatchToShard "s" 0 [1] ::
        List.replicate 7 (.step 0 5))).jobs[0]? = some job ∧
      job.Deserves (.fresh 1 5 fun payload => payload == [1])
        (.failed (.rejected "s" "injected failure")) := by
  constructor
  · obtain ⟨-, -, -, -, -, -, hflush⟩ := conserves_records 1 5 (fun payload => payload == [1])
      [.dispatchToShard "s" 0 [1], .step 0 0, .step 0 0, .step 0 0, .flush, .step 0 5, .step 0 5]
    exact (hflush 0 (.look 0) (by decide +kernel) (by decide +kernel)).1
  · obtain ⟨-, -, -, -, hhandles, -, -⟩ := conserves_records 1 5 (fun payload => payload == [1])
      (.dispatchToShard "s" 0 [1] :: List.replicate 7 (.step 0 5))
    refine ⟨⟨⟨"s", .ofShard 0, [1]⟩, .closed ⟨0, 10, "s", 0, none, [1]⟩
      (.failed (.rejected "s" "injected failure")),
      .draining (.failed (.rejected "s" "injected failure")) []⟩, by decide +kernel, ?_⟩
    exact (hhandles 0 _ (by decide +kernel)).2.1 _ rfl

end MemorySession

end EventReplay
