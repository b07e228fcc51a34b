import Mathlib.Data.List.Perm.Basic
import EventReplay.Completion.Basic
import EventReplay.Sink.Memory

/-!
# A sink in memory on many threads

Each delivery is a job of its own: its caller puts the record in flight, and a task that the caller
leaves behind completes it. Jobs stop and go on between any two of their steps. The sink changes under a
lock. Amid each change the number of records in flight is published, and what a thread changes under
the lock shows to others only when it has given the lock back; so flushes, which look at the published
number without the lock, are ahead of all others. The outcome is told after the lock is given back.

Whatever a job does is one of the moves of `MemoryMove` (`MemorySession.step_moves`).
-/

set_option autoImplicit false

namespace EventReplay

/-! ## Jobs -/

/-- What the job of a delivery is about to do. -/
inductive MemoryStage where
  /-- To take the lock for the record, or to be told that there is no such shard. -/
  | called
  /-- To publish the number of records in flight with this one. -/
  | queueing (record : InFlight)
  /-- To give the lock back and leave a task behind. -/
  | queued (record : InFlight)
  /-- To take the lock and complete the record. -/
  | flying (record : InFlight)
  /-- To publish the number of records in flight without this one. -/
  | ending (record : InFlight)
  /-- To give the lock back. -/
  | ended (record : InFlight) (outcome : Outcome)
  /-- To tell the outcome. -/
  | telling (record : InFlight) (outcome : Outcome)
  /-- Nothing; the outcome is told. -/
  | closed (record : InFlight) (outcome : Outcome)
  /-- Nothing; it has been told that there is no such shard. -/
  | astray
deriving DecidableEq, Repr

namespace MemoryStage

/-- The record of a job, if it is in flight as far as it has been published. -/
def flying? : MemoryStage → Option InFlight
  | queued record | flying record | ending record => some record
  | _ => none

/-- The record of a job and what became of it, as soon as that has been published. -/
def settled? : MemoryStage → Option (InFlight × Outcome)
  | ended record outcome | telling record outcome | closed record outcome => some (record, outcome)
  | _ => none

/-- The record has been accepted, as far as it has been published. -/
def accepted (stage : MemoryStage) : Bool := stage.flying?.isSome || stage.settled?.isSome

/-- The job has the lock. -/
def locks : MemoryStage → Bool
  | queueing _ | queued _ | ending _ | ended .. => true
  | _ => false

/-- The job has published a change that only it can see. -/
def ahead : MemoryStage → Bool
  | queued _ | ended .. => true
  | _ => false

/-- The steps that are left to a job. -/
def left : MemoryStage → Nat
  | called => 7
  | queueing _ => 6
  | queued _ => 5
  | flying _ => 4
  | ending _ => 3
  | ended .. => 2
  | telling .. => 1
  | closed .. | astray => 0

end MemoryStage

/-- The record as a sink keeps it. -/
def InFlight.delivered (record : InFlight) : Delivered :=
  ⟨record.stream, record.shard, record.key, record.payload⟩

/-- A delivery, how far it has come, and the handle of its caller. -/
structure MemoryJob where
  delivery : Delivery
  stage : MemoryStage := .called
  handle : Completion Unit := .fresh
deriving DecidableEq, Repr

namespace MemoryJob

/-- The job at another stage. -/
def atStage (job : MemoryJob) (stage : MemoryStage) : MemoryJob := { job with stage }

/-- What the job has brought to the records delivered. -/
def delivered? (job : MemoryJob) : Option Delivered :=
  match job.stage.settled? with
  | some (record, .written) => some record.delivered
  | _ => none

/-- The record of the job was refused. -/
def refused (job : MemoryJob) : Bool :=
  match job.stage.settled? with
  | some (_, .failed _) => true
  | _ => false

end MemoryJob

/-- A sink in memory, the jobs and the flushes around it. -/
structure MemorySession where
  /-- The sink as all find it. -/
  sink : MemorySink
  /-- The sink with the change that has been published and is about to show. -/
  latest : MemorySink
  /-- The published number of records in flight. -/
  watch : Nat := 0
  /-- The number of the job that has the lock. -/
  locked : Option Nat := none
  /-- The jobs in the order of the calls; a job's number is that of its handle. -/
  jobs : List MemoryJob := []
  /-- Whether each flush has returned, in the order of the calls. -/
  flushes : List Bool := []

/-- What happens next. -/
inductive MemoryAction where
  | dispatch (stream key : String) (payload : Bytes)
  | dispatchToShard (stream : String) (shard : Nat) (payload : Bytes)
  | broadcast (stream : String) (payload : Bytes)
  /-- A job takes a step, at some time. -/
  | step (n now : Nat)
  | flush
  /-- A flush looks at the published number and returns when it is zero. -/
  | look (n : Nat)
deriving Repr

namespace MemorySession

/-- Deliveries are called for. -/
def call (s : MemorySession) (deliveries : List Delivery) : MemorySession :=
  { s with jobs := s.jobs ++ deliveries.map fun delivery => { delivery } }

/-- A job takes the lock, if nobody has it. -/
def lock (s : MemorySession) (n : Nat) (job : MemoryJob) : MemorySession :=
  if s.locked = none then { s with locked := some n, jobs := s.jobs.set n job } else s

/-- A job publishes what it makes of the sink. -/
def publish (s : MemorySession) (n : Nat) (job : MemoryJob) (latest : MemorySink) : MemorySession :=
  { s with latest, watch := latest.flying.length, jobs := s.jobs.set n job }

/-- A job lets all see what it has made of the sink, and gives the lock back. -/
def unlock (s : MemorySession) (n : Nat) (job : MemoryJob) : MemorySession :=
  { s with sink := s.latest, locked := none, jobs := s.jobs.set n job }

/-- A job tells an outcome. -/
def tell (s : MemorySession) (n : Nat) (job : MemoryJob) (outcome : Outcome) : MemorySession :=
  match job.handle.tell outcome with
  | some (_, handle) => { s with jobs := s.jobs.set n { job with handle } }
  | none => { s with jobs := s.jobs.set n job }

/-- A job takes a step at a time. -/
def step (s : MemorySession) (n now : Nat) : MemorySession :=
  match s.jobs[n]? with
  | none => s
  | some job =>
    match job.stage with
    | .called =>
      match s.sink.accept now n job.delivery with
      | (some outcome, _) =>
        { s with jobs := s.jobs.set n ⟨job.delivery, .astray, .resolved outcome⟩ }
      | (none, _) => s.lock n (job.atStage (.queueing (s.sink.record now n job.delivery)))
    | .queueing record => s.publish n (job.atStage (.queued record)) (s.sink.enqueue record)
    | .queued record => s.unlock n (job.atStage (.flying record))
    | .flying record => s.lock n (job.atStage (.ending record))
    | .ending record =>
      let (outcome, latest) := s.sink.complete record
      s.publish n (job.atStage (.ended record outcome)) latest
    | .ended record outcome => s.unlock n (job.atStage (.telling record outcome))
    | .telling record outcome => s.tell n (job.atStage (.closed record outcome)) outcome
    | .closed .. | .astray => s

/-- What happens next happens. -/
def act (s : MemorySession) : MemoryAction → MemorySession
  | .dispatch stream key payload => s.call [⟨stream, .ofKey key, payload⟩]
  | .dispatchToShard stream shard payload => s.call [⟨stream, .ofShard shard, payload⟩]
  | .broadcast stream payload => s.call (EventReplay.broadcast stream s.sink.shards payload)
  | .step n now => s.step n now
  | .flush => { s with flushes := s.flushes ++ [false] }
  | .look n => if s.watch = 0 then { s with flushes := s.flushes.set n true } else s

/-- A sink that nobody has called. -/
def fresh (sink : MemorySink) : MemorySession := { sink, latest := sink }

/-- A sink after everything in a schedule has happened. -/
def run (sink : MemorySink) (schedule : List MemoryAction) : MemorySession :=
  schedule.foldl act (fresh sink)

theorem run_append (sink : MemorySink) (before after : List MemoryAction) :
    run sink (before ++ after) = after.foldl act (run sink before) :=
  List.foldl_append ..

theorem run_concat (sink : MemorySink) (before : List MemoryAction) (action : MemoryAction) :
    run sink (before ++ [action]) = (run sink before).act action := by
  rw [run_append]
  rfl

end MemorySession

/-! ## What a job can do -/

/-- What the job of some number can do: what becomes of the job, and of everything but the jobs. -/
inductive MemoryMove (s : MemorySession) (n : Nat) : MemoryJob → MemoryJob → MemorySession → Prop
  | miss (d : Delivery) (handle : Completion Unit)
      (hshard : s.sink.shards ≤ d.target.number s.sink.shards) :
      MemoryMove s n ⟨d, .called, handle⟩
        ⟨d, .astray,
          .resolved (.failed (.unknownShard d.stream (d.target.number s.sink.shards)))⟩ s
  | enter (d : Delivery) (handle : Completion Unit) (now : Nat) (hfree : s.locked = none)
      (hshard : d.target.number s.sink.shards < s.sink.shards) :
      MemoryMove s n ⟨d, .called, handle⟩ ⟨d, .queueing (s.sink.record now n d), handle⟩
        { s with locked := some n }
  | queue (d : Delivery) (handle : Completion Unit) (record : InFlight) :
      MemoryMove s n ⟨d, .queueing record, handle⟩ ⟨d, .queued record, handle⟩
        { s with
          latest := s.sink.enqueue record
          watch := (s.sink.enqueue record).flying.length }
  | leave (d : Delivery) (handle : Completion Unit) (record : InFlight) :
      MemoryMove s n ⟨d, .queued record, handle⟩ ⟨d, .flying record, handle⟩
        { s with sink := s.latest, locked := none }
  | enterAgain (d : Delivery) (handle : Completion Unit) (record : InFlight)
      (hfree : s.locked = none) :
      MemoryMove s n ⟨d, .flying record, handle⟩ ⟨d, .ending record, handle⟩
        { s with locked := some n }
  | complete (d : Delivery) (handle : Completion Unit) (record : InFlight) :
      MemoryMove s n ⟨d, .ending record, handle⟩
        ⟨d, .ended record (s.sink.complete record).1, handle⟩
        { s with
          latest := (s.sink.complete record).2
          watch := (s.sink.complete record).2.flying.length }
  | leaveAgain (d : Delivery) (handle : Completion Unit) (record : InFlight) (outcome : Outcome) :
      MemoryMove s n ⟨d, .ended record outcome, handle⟩ ⟨d, .telling record outcome, handle⟩
        { s with sink := s.latest, locked := none }
  | tell (d : Delivery) (handle handle' : Completion Unit) (record : InFlight) (outcome : Outcome)
      (round : List Unit) (htell : handle.tell outcome = some (round, handle')) :
      MemoryMove s n ⟨d, .telling record outcome, handle⟩ ⟨d, .closed record outcome, handle'⟩ s
  | tellAgain (d : Delivery) (handle : Completion Unit) (record : InFlight) (outcome : Outcome)
      (htell : handle.tell outcome = none) :
      MemoryMove s n ⟨d, .telling record outcome, handle⟩ ⟨d, .closed record outcome, handle⟩ s

namespace MemorySession

/-- The job has nothing left to do, or it waits for the lock. -/
def Rests (s : MemorySession) (job : MemoryJob) : Prop :=
  job.stage.left = 0 ∨ (s.locked ≠ none ∧ job.stage.locks = false)

/-- A step is a move of a job, unless the job rests. -/
theorem step_moves (s : MemorySession) (n now : Nat) :
    (s.step n now = s ∧ ∀ job, s.jobs[n]? = some job → s.Rests job) ∨
    ∃ job job' s', s.jobs[n]? = some job ∧ MemoryMove s n job job' s' ∧
      s.step n now = { s' with jobs := s.jobs.set n job' } := by
  unfold step
  cases hjob : s.jobs[n]? with
  | none => exact .inl ⟨rfl, by simp⟩
  | some job =>
      obtain ⟨d, stage, handle⟩ := job
      cases stage with
      | called =>
          by_cases hshard : d.target.number s.sink.shards < s.sink.shards
          · by_cases hfree : s.locked = none
            · refine .inr ⟨_, _, _, rfl, .enter d handle now hfree hshard, ?_⟩
              simp [MemorySink.accept, MemorySink.record, hshard, lock, hfree, MemoryJob.atStage]
            · refine .inl ⟨?_, by simp [Rests, hfree, MemoryStage.locks]⟩
              simp [MemorySink.accept, MemorySink.record, hshard, lock, hfree]
          · refine .inr ⟨_, _, _, rfl, .miss d handle (Nat.le_of_not_lt hshard), ?_⟩
            simp [MemorySink.accept, MemorySink.record, hshard]
      | queueing record => exact .inr ⟨_, _, _, rfl, .queue d handle record, rfl⟩
      | queued record => exact .inr ⟨_, _, _, rfl, .leave d handle record, rfl⟩
      | flying record =>
          by_cases hfree : s.locked = none
          · exact .inr ⟨_, _, _, rfl, .enterAgain d handle record hfree, if_pos hfree⟩
          · exact .inl ⟨if_neg hfree, by simp [Rests, hfree, MemoryStage.locks]⟩
      | ending record => exact .inr ⟨_, _, _, rfl, .complete d handle record, rfl⟩
      | ended record outcome => exact .inr ⟨_, _, _, rfl, .leaveAgain d handle record outcome, rfl⟩
      | telling record outcome =>
          cases htell : handle.tell outcome with
          | none =>
              refine .inr ⟨_, _, _, rfl, .tellAgain d handle record outcome htell, ?_⟩
              simp [tell, MemoryJob.atStage, htell]
          | some told =>
              obtain ⟨round, handle'⟩ := told
              refine .inr ⟨_, _, _, rfl, .tell d handle handle' record outcome round htell, ?_⟩
              simp [tell, MemoryJob.atStage, htell]
      | closed record outcome => exact .inl ⟨rfl, by simp [Rests, MemoryStage.left]⟩
      | astray => exact .inl ⟨rfl, by simp [Rests, MemoryStage.left]⟩

end MemorySession

end EventReplay
