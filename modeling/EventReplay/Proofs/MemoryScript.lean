import EventReplay.Proofs.MemoryBooks
import EventReplay.Sink.Session

/-!
# A sink in memory on one thread

Where a caller and the tasks take turns on one thread and a virtual clock (`SinkSession`), each delivery
and each completion goes on as far as it can before anything else happens. The sink and the outcomes are
then those that some schedule of the same jobs on many threads leaves (`SinkSession.exists_schedule`).
-/

set_option autoImplicit false

namespace EventReplay

/-! ## Turns -/

/-- What a caller does next with a sink. -/
inductive SinkTurn where
  | dispatch (d : Delivery)
  | broadcast (stream : String) (payload : Bytes)
  /-- Lets time pass. -/
  | passTo (last : Nat)
  | waitFor (handle : Nat)
  | flush
deriving Repr

namespace SinkSession

/-- A turn is taken. -/
def turn (session : SinkSession MemorySink) : SinkTurn → SinkSession MemorySink
  | .dispatch d => session.dispatch d
  | .broadcast stream payload => (session.broadcast stream payload).2
  | .passTo last => session.passTo last
  | .waitFor handle => (session.waitFor handle).2
  | .flush => session.flush.2

/-- A session with a sink that nobody has called, after some turns. -/
def play (sink : MemorySink) (turns : List SinkTurn) : SinkSession MemorySink :=
  turns.foldl turn { sink }

end SinkSession

namespace MemorySession

/-! ## Several steps at once -/

variable {s : MemorySession} {origin : MemorySink} {n now : Nat} {d : Delivery}

/-- A job that has been called for takes the lock, puts its record in flight and gives the lock back. -/
theorem steps_enqueue (hjob : s.jobs[n]? = some { delivery := d }) (hfree : s.locked = none)
    (hshard : d.target.number s.sink.shards < s.sink.shards) :
    ((s.step n now).step n now).step n now =
      { s with
        sink := s.sink.enqueue (s.sink.record now n d)
        latest := s.sink.enqueue (s.sink.record now n d)
        watch := (s.sink.enqueue (s.sink.record now n d)).flying.length
        jobs := s.jobs.set n ⟨d, .flying (s.sink.record now n d), .fresh⟩ } := by
  have hfirst : s.step n now = { s with
      locked := some n
      jobs := s.jobs.set n ⟨d, .queueing (s.sink.record now n d), .fresh⟩ } := by
    simp [step, hjob, MemorySink.accept, MemorySink.record, hshard, lock, hfree, MemoryJob.atStage]
  rw [hfirst]
  simp only [step, getElem?_set_same hjob, publish, unlock, MemoryJob.atStage, List.set_set, hfree]

/-- A task takes the lock, completes its record, gives the lock back and tells the outcome. -/
theorem steps_complete {record : InFlight}
    (hjob : s.jobs[n]? = some ⟨d, .flying record, .fresh⟩) (hfree : s.locked = none) :
    (((s.step n now).step n now).step n now).step n now =
      { s with
        sink := (s.sink.complete record).2
        latest := (s.sink.complete record).2
        watch := (s.sink.complete record).2.flying.length
        jobs := s.jobs.set n ⟨d, .closed record (s.sink.complete record).1,
          .draining (s.sink.complete record).1 []⟩ } := by
  have hfirst : s.step n now = { s with
      locked := some n
      jobs := s.jobs.set n ⟨d, .ending record, .fresh⟩ } := by
    simp [step, hjob, lock, hfree, MemoryJob.atStage]
  rw [hfirst]
  simp only [step, getElem?_set_same hjob, publish, unlock, tell, MemoryJob.atStage, List.set_set,
    hfree, Completion.tell, Completion.fresh]

/-! ## What a session shows of the jobs -/

/-- The jobs have gone on as far as they can before their records are due, and the session has the sink
and the outcomes. -/
structure Shows (s : MemorySession) (session : SinkSession MemorySink) : Prop where
  sink : s.sink = session.sink
  outcomes : s.jobs.map (fun job => job.handle.outcome?) = session.outcomes
  free : s.locked = none
  settled : ∀ job ∈ s.jobs, (∃ record, job.stage = .flying record) ∨ job.stage.left = 0

/-- The task of a record in flight. -/
theorem Shows.exists_task {session : SinkSession MemorySink} (h : s.Shows session)
    (hlawful : s.Lawful origin) {record : InFlight} (hmem : record ∈ session.sink.flying) :
    ∃ d, s.jobs[record.handle]? = some ⟨d, .flying record, .fresh⟩ := by
  rw [← h.sink, hlawful.locking.sink_eq h.free] at hmem
  obtain ⟨job, hjob, hflying⟩ := List.mem_filterMap.mp (hlawful.counts.flying.mem_iff.mp hmem)
  obtain ⟨n, hn⟩ := List.getElem?_of_mem hjob
  have hsound := hlawful.sound n job hn
  obtain ⟨d, stage, handle⟩ := job
  rcases h.settled _ hjob with ⟨record', rfl⟩ | hdone
  · obtain rfl : record' = record := Option.some.inj hflying
    obtain ⟨⟨-, now, hrecord⟩, hfresh⟩ := hsound
    dsimp only at hfresh
    rw [hrecord, hfresh] at hn
    refine ⟨d, ?_⟩
    rw [show record'.handle = n by rw [hrecord]; rfl, hn, ← hrecord]
  · cases stage <;> simp_all [MemoryStage.flying?, MemoryStage.left]

/-- Jobs that go on together keep what a session shows of them where one of them is set. -/
theorem Shows.set {session : SinkSession MemorySink} (h : s.Shows session) {job : MemoryJob}
    (hjob : job.stage.left = 0) {sink : MemorySink} {watch : Nat} :
    Shows { s with sink := sink, latest := sink, watch := watch, jobs := s.jobs.set n job }
      { session with sink, outcomes := session.outcomes.set n job.handle.outcome? } := by
  refine ⟨rfl, ?_, h.free, ?_⟩
  · rw [← h.outcomes, List.map_set]
  · intro other hmem
    rcases List.mem_or_eq_of_mem_set hmem with hold | rfl
    · exact h.settled other hold
    · exact .inr hjob

/-- The call for one delivery. -/
def callFor (d : Delivery) : MemoryAction :=
  match d.target with
  | .ofKey key => .dispatch d.stream key d.payload
  | .ofShard shard => .dispatchToShard d.stream shard d.payload

theorem act_callFor (s : MemorySession) (d : Delivery) : s.act (callFor d) = s.call [d] := by
  obtain ⟨stream, target, payload⟩ := d
  cases target <;> rfl

theorem Shows.dispatch {session : SinkSession MemorySink} (h : s.Shows session) (d : Delivery) :
    ∃ actions : List MemoryAction, (actions.foldl act s).Shows (session.dispatch d) := by
  have hlength : session.outcomes.length = s.jobs.length := by rw [← h.outcomes, List.length_map]
  have hjob : (s.call [d]).jobs[s.jobs.length]? = some { delivery := d } := by simp [call]
  have hset : ∀ job, (s.call [d]).jobs.set s.jobs.length job = s.jobs ++ [job] := by simp [call]
  by_cases hshard : d.target.number s.sink.shards < s.sink.shards
  · refine ⟨[callFor d, .step s.jobs.length session.now, .step s.jobs.length session.now,
      .step s.jobs.length session.now], ?_⟩
    simp only [List.foldl_cons, List.foldl_nil, act_callFor]
    simp only [act]
    rw [steps_enqueue hjob h.free hshard, hset]
    rw [h.sink] at hshard
    have haccept : MemorySink.accept session.sink session.now session.outcomes.length d =
        (none, session.sink.enqueue (session.sink.record session.now s.jobs.length d)) := by
      simp [MemorySink.accept, MemorySink.record, hshard, hlength]
    have hdispatch : session.dispatch d = { session with
        sink := session.sink.enqueue (session.sink.record session.now s.jobs.length d)
        outcomes := session.outcomes ++ [none] } := by
      simp only [SinkSession.dispatch, Sink.accept, haccept]
    rw [hdispatch]
    refine ⟨?_, ?_, h.free, ?_⟩
    · simp [call, h.sink]
    · rw [List.map_append, h.outcomes]
      rfl
    · intro job hmem
      rcases List.mem_append.mp hmem with hold | hnew
      · exact h.settled job hold
      · rw [List.mem_singleton.mp hnew]
        exact .inl ⟨_, rfl⟩
  · refine ⟨[callFor d, .step s.jobs.length session.now], ?_⟩
    simp only [List.foldl_cons, List.foldl_nil, act_callFor]
    simp only [act]
    have hstep : (s.call [d]).step s.jobs.length session.now = { s with
        jobs := s.jobs ++ [⟨d, .astray, .resolved (.failed
          (.unknownShard d.stream (d.target.number s.sink.shards)))⟩] } := by
      have hout : ¬ d.target.number (s.call [d]).sink.shards < (s.call [d]).sink.shards := hshard
      simp only [step, hjob, MemorySink.accept, MemorySink.record, hout, if_false, hset]
      rfl
    rw [hstep]
    rw [h.sink] at hshard
    have hdispatch : session.dispatch d = { session with
        outcomes := session.outcomes ++ [some (.failed
          (.unknownShard d.stream (d.target.number session.sink.shards)))] } := by
      simp [SinkSession.dispatch, Sink.accept, MemorySink.accept, MemorySink.record, hshard]
    rw [hdispatch]
    refine ⟨h.sink, ?_, h.free, ?_⟩
    · rw [List.map_append, h.outcomes, ← h.sink]
      rfl
    · intro job hmem
      rcases List.mem_append.mp hmem with hold | hnew
      · exact h.settled job hold
      · rw [List.mem_singleton.mp hnew]
        exact .inr rfl

end MemorySession

/-! ## Completions that are due -/

namespace SinkSession

/-- A record of the session is completed, and its outcome is noted. -/
def completeOne (session : SinkSession MemorySink) (record : InFlight) : SinkSession MemorySink :=
  { session with
    sink := (session.sink.complete record).2
    outcomes := session.outcomes.set record.handle (some (session.sink.complete record).1) }

/-- What is due is completed one record after another. -/
theorem settleAt_eq (session : SinkSession MemorySink) (time : Nat) :
    session.settleAt time =
      { (session.sink.dueBy time).foldl completeOne session with now := max session.now time } := by
  have hfold : ∀ (records : List InFlight) (told : List (Nat × Outcome)) (sink : MemorySink),
      let after := records.foldl (fun (told : List (Nat × Outcome) × MemorySink) record =>
          (told.1 ++ [(record.handle, (told.2.complete record).1)], (told.2.complete record).2))
        (told, sink)
      { session with sink := after.2, now := max session.now time }.note after.1 =
        { records.foldl completeOne ({ session with sink := sink }.note told) with
          now := max session.now time } := by
    intro records
    induction records with
    | nil => intro told sink; rfl
    | cons record records ih =>
        intro told sink
        simp only [List.foldl_cons]
        rw [ih]
        simp only [note, completeOne, List.foldl_append, List.foldl_cons, List.foldl_nil]
  exact hfold (session.sink.dueBy time) [] session.sink

end SinkSession

/-! ## Every script is a schedule -/

/-- Some schedule leaves the sink and the outcomes of a session. -/
def SinkSession.Reached (session : SinkSession MemorySink) (shards latency : Nat)
    (refuses : Bytes → Bool) : Prop :=
  ∃ schedule, (MemorySession.run (.fresh shards latency refuses) schedule).Shows session

namespace SinkSession.Reached

variable {session : SinkSession MemorySink} {shards latency : Nat} {refuses : Bytes → Bool}

theorem dispatch (h : session.Reached shards latency refuses) (d : Delivery) :
    (session.dispatch d).Reached shards latency refuses := by
  obtain ⟨schedule, hshows⟩ := h
  obtain ⟨actions, hshows'⟩ := hshows.dispatch d
  refine ⟨schedule ++ actions, ?_⟩
  rwa [MemorySession.run_append]

theorem broadcast (h : session.Reached shards latency refuses) (stream : String) (payload : Bytes) :
    (session.broadcast stream payload).2.Reached shards latency refuses := by
  unfold SinkSession.broadcast
  generalize EventReplay.broadcast stream _ payload = deliveries
  show (deliveries.foldl SinkSession.dispatch session).Reached shards latency refuses
  induction deliveries generalizing session with
  | nil => exact h
  | cons d deliveries ih => exact ih (h.dispatch d)

theorem completeOne (h : session.Reached shards latency refuses) {record : InFlight}
    (hmem : record ∈ session.sink.flying) :
    (session.completeOne record).Reached shards latency refuses := by
  obtain ⟨schedule, hshows⟩ := h
  obtain ⟨d, hjob⟩ := hshows.exists_task (MemorySession.lawful_run ..) hmem
  refine ⟨schedule ++ List.replicate 4 (.step record.handle session.now), ?_⟩
  rw [MemorySession.run_append]
  simp only [List.replicate_succ, List.replicate_zero, List.foldl_cons, List.foldl_nil,
    MemorySession.act]
  rw [MemorySession.steps_complete hjob hshows.free, hshows.sink]
  exact hshows.set rfl

/-- Records that are in flight together are completed one after another. -/
theorem completeAll (h : session.Reached shards latency refuses) {records : List InFlight}
    (hmem : records.Subperm session.sink.flying) :
    (records.foldl SinkSession.completeOne session).Reached shards latency refuses := by
  induction records generalizing session with
  | nil => exact h
  | cons record records ih =>
      have hrecord : record ∈ session.sink.flying := hmem.subset (List.mem_cons_self ..)
      apply ih (h.completeOne hrecord)
      have hrest := hmem.erase record
      rw [List.erase_cons_head] at hrest
      show records.Subperm (session.sink.complete record).2.flying
      rwa [MemorySink.complete_flying]

theorem settleAt (h : session.Reached shards latency refuses) (time : Nat) :
    (session.settleAt time).Reached shards latency refuses := by
  rw [settleAt_eq]
  have hdue : (session.sink.dueBy time).Subperm session.sink.flying :=
    (List.mergeSort_perm ..).subperm_right.mpr (List.filter_sublist.subperm)
  obtain ⟨schedule, hshows⟩ := h.completeAll hdue
  exact ⟨schedule, hshows.sink, hshows.outcomes, hshows.free, hshows.settled⟩

theorem settleWhile (goOn : SinkSession MemorySink → Nat → Bool) (times : Nat)
    (h : session.Reached shards latency refuses) :
    (settleWhile goOn times session).Reached shards latency refuses := by
  induction times generalizing session with
  | zero => exact h
  | succ times ih =>
      unfold SinkSession.settleWhile
      split
      · exact h
      · split
        · exact ih (h.settleAt _)
        · exact h

theorem turn (h : session.Reached shards latency refuses) (next : SinkTurn) :
    (session.turn next).Reached shards latency refuses := by
  cases next with
  | dispatch d => exact h.dispatch d
  | broadcast stream payload => exact h.broadcast stream payload
  | passTo last =>
      obtain ⟨schedule, hshows⟩ :=
        h.settleWhile (fun _ due => due ≤ last) (session.outcomes.length + 1)
      exact ⟨schedule, hshows.sink, hshows.outcomes, hshows.free, hshows.settled⟩
  | waitFor handle => exact h.settleWhile _ _
  | flush => exact h.settleWhile _ _

end SinkSession.Reached

/-- Whatever turns are taken, the sink and the outcomes are those that some schedule leaves. -/
theorem SinkSession.exists_schedule (shards latency : Nat) (refuses : Bytes → Bool)
    (turns : List SinkTurn) :
    ∃ schedule, (MemorySession.run (.fresh shards latency refuses) schedule).Shows
      (play (.fresh shards latency refuses) turns) := by
  have hfirst : SinkSession.Reached { sink := .fresh shards latency refuses } shards latency refuses :=
    ⟨[], rfl, rfl, rfl, by simp [MemorySession.run, MemorySession.fresh]⟩
  have hturns : ∀ session : SinkSession MemorySink, session.Reached shards latency refuses →
      (turns.foldl SinkSession.turn session).Reached shards latency refuses := by
    induction turns with
    | nil => exact fun _ h => h
    | cons next turns ih => exact fun session h => ih _ (h.turn next)
  exact hturns _ hfirst

end EventReplay
