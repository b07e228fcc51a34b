import EventReplay.Outcome
import EventReplay.Storage.AppendFile

/-!
# The writer of a shard

A shard has a writer of its own. Commands reach it through a queue that never fills up, and the writer
takes one step at a time (`ShardWriter.step`), while others send more (`ShardWriter.send`) between any
two steps. It gathers the records that it finds waiting into a batch, up to a bound, writes the batch,
tells every record of it the same outcome, and goes on. A command to flush cuts the batch short.

Every step takes work away (`ShardWriter.work_step_lt`), so a writer that is left alone comes to wait
(`ShardWriter.isWaiting_run`).
-/

set_option autoImplicit false

namespace EventReplay

/-- What a writer is sent. -/
inductive ShardCommand where
  /-- To write a record; its outcome goes to a handle. -/
  | append (handle : Nat) (payload : Bytes)
  /-- To bring all to the device; the answer goes to a ticket. -/
  | flush (ticket : Nat)
deriving DecidableEq, Repr

/-- What a writer lets others know. -/
inductive ShardReply where
  | told (handle : Nat) (outcome : Outcome)
  | flushed (ticket : Nat) (result : Except FileFault Unit)

/-- What a writer is about to do. -/
inductive ShardPhase where
  /-- To wait for a command. -/
  | waiting
  /-- To add what waits in the queue to a batch. -/
  | gathering (batch : List (Nat × Bytes))
  /-- To write a batch, and then to answer a ticket, if there is one. -/
  | writing (batch : List (Nat × Bytes)) (ticket : Option Nat)
  /-- To tell handles the outcome of their batch. -/
  | telling (outcome : Outcome) (handles : List Nat) (ticket : Option Nat)
  /-- Nothing more. -/
  | ended
deriving DecidableEq, Repr

/-- The writer of a shard. -/
structure ShardWriter where
  file : AppendFile
  /-- Whether a batch is one line. -/
  aggregate : Bool
  /-- The most records in a batch. -/
  maxBatch : Nat
  /-- The commands sent and not taken, first to come first. -/
  queue : List ShardCommand := []
  /-- Whether no more commands come. -/
  closed : Bool := false
  phase : ShardPhase := .waiting

namespace ShardWriter

/-- The pieces of a line that holds all payloads. -/
def aggregatePieces (payloads : List Bytes) : List Bytes :=
  [ascii '['] :: (payloads.intersperse [ascii ',']) ++ [[ascii ']', Bytes.lineFeed]]

/-- The pieces of a line for each payload. -/
def linePieces (payloads : List Bytes) : List Bytes :=
  payloads.flatMap fun payload => [payload, [Bytes.lineFeed]]

/-- The pieces in which a batch of payloads is written. -/
def pieces (writer : ShardWriter) (payloads : List Bytes) : List Bytes :=
  if writer.aggregate then aggregatePieces payloads else linePieces payloads

/-- Writes a batch and brings it to the device. -/
def writeBatch (writer : ShardWriter) (batch : List (Nat × Bytes)) : Outcome × AppendFile :=
  match writer.file.writeAll (writer.pieces (batch.map Prod.snd)) with
  | (.error fault, file) => (.failed (.io fault.message), file)
  | (.ok (), file) =>
    match file.flush with
    | (.error fault, file) => (.failed (.io fault.message), file)
    | (.ok (), file) => (.written, file)

/-- Sends a command. A record that comes after the end has its outcome at once. -/
def send (writer : ShardWriter) (command : ShardCommand) : Option Outcome × ShardWriter :=
  match writer.phase with
  | .ended => (some (.failed .shutdown), writer)
  | _ => (none, { writer with queue := writer.queue ++ [command] })

/-- Sends no more commands. -/
def close (writer : ShardWriter) : ShardWriter := { writer with closed := true }

/-- The writer takes a step. -/
def step (writer : ShardWriter) : Option ShardReply × ShardWriter :=
  match writer.phase with
  | .waiting =>
    match writer.queue with
    | [] =>
      if writer.closed then
        -- what a failing device left in the buffer is tried once more as the file is let go
        (none, { writer with file := writer.file.sync.2.flush.2, phase := .ended })
      else (none, writer)
    | .append handle payload :: queue =>
      (none, { writer with queue, phase := .gathering [(handle, payload)] })
    | .flush ticket :: queue => (none, { writer with queue, phase := .writing [] (some ticket) })
  | .gathering batch =>
    if writer.maxBatch ≤ batch.length then (none, { writer with phase := .writing batch none })
    else
      match writer.queue with
      | [] => (none, { writer with phase := .writing batch none })
      | .append handle payload :: queue =>
        (none, { writer with queue, phase := .gathering (batch ++ [(handle, payload)]) })
      | .flush ticket :: queue =>
        (none, { writer with queue, phase := .writing batch (some ticket) })
  | .writing [] ticket => (none, { writer with phase := .telling .written [] ticket })
  | .writing (record :: batch) ticket =>
    let (outcome, file) := writer.writeBatch (record :: batch)
    (none,
      { writer with
        file, phase := .telling outcome ((record :: batch).map Prod.fst) ticket })
  | .telling outcome (handle :: handles) ticket =>
    (some (.told handle outcome), { writer with phase := .telling outcome handles ticket })
  | .telling _ [] (some ticket) =>
    let (result, file) := writer.file.sync
    (some (.flushed ticket result), { writer with file, phase := .waiting })
  | .telling _ [] none => (none, { writer with phase := .waiting })
  | .ended => (none, writer)

/-- A writer that gathers misses what has just been sent, and goes on with the batch that it has. -/
def stopGathering (writer : ShardWriter) : ShardWriter :=
  match writer.phase with
  | .gathering batch => { writer with phase := .writing batch none }
  | _ => writer

/-! ## A writer that is left alone -/

/-- Whether a step would change nothing. -/
def isWaiting (writer : ShardWriter) : Bool :=
  match writer.phase with
  | .waiting => writer.queue.isEmpty && !writer.closed
  | .ended => true
  | _ => false

/-- A bound on the steps to take for what a writer is about to do. -/
def ShardPhase.work : ShardPhase → Nat
  | .waiting => 1
  | .gathering batch => batch.length + 4
  | .writing batch _ => batch.length + 3
  | .telling _ handles _ => handles.length + 2
  | .ended => 0

/-- A bound on the steps that a writer takes before it waits. -/
def work (writer : ShardWriter) : Nat := 5 * writer.queue.length + ShardPhase.work writer.phase

/-- Takes so many steps; gives the replies in order. -/
def runFor : Nat → ShardWriter → List ShardReply × ShardWriter
  | 0, writer => ([], writer)
  | steps + 1, writer =>
    let (reply, writer) := writer.step
    let (replies, writer) := runFor steps writer
    (reply.toList ++ replies, writer)

/-- Takes steps until the writer waits; gives the replies in order. -/
def run (writer : ShardWriter) : List ShardReply × ShardWriter := runFor writer.work writer

theorem work_step_lt (writer : ShardWriter) (h : writer.isWaiting = false) :
    writer.step.2.work < writer.work := by
  obtain ⟨file, aggregate, maxBatch, queue, closed, phase⟩ := writer
  cases phase with
  | waiting =>
    cases queue with
    | nil => cases closed <;> simp_all [isWaiting, step, work, ShardPhase.work]
    | cons command queue =>
      cases command <;> simp [step, work, ShardPhase.work] <;> omega
  | gathering batch =>
    simp only [step]
    split
    · simp [work, ShardPhase.work]
    · split <;> simp_all [work, ShardPhase.work] <;> omega
  | writing batch ticket => cases batch <;> simp [step, work, ShardPhase.work]
  | telling outcome handles ticket =>
    cases handles with
    | cons handle handles => simp [step, work, ShardPhase.work]
    | nil => cases ticket <;> simp [step, work, ShardPhase.work]
  | ended => simp [isWaiting] at h

theorem step_of_isWaiting (writer : ShardWriter) (h : writer.isWaiting = true) :
    writer.step = (none, writer) := by
  obtain ⟨file, aggregate, maxBatch, queue, closed, phase⟩ := writer
  cases phase <;> simp_all [isWaiting, step]

theorem runFor_of_isWaiting (steps : Nat) (writer : ShardWriter) (h : writer.isWaiting = true) :
    runFor steps writer = ([], writer) := by
  induction steps with
  | zero => rfl
  | succ steps ih => simp [runFor, step_of_isWaiting writer h, ih]

theorem isWaiting_runFor (steps : Nat) (writer : ShardWriter) (h : writer.work ≤ steps) :
    (runFor steps writer).2.isWaiting = true := by
  induction steps generalizing writer with
  | zero =>
    obtain ⟨file, aggregate, maxBatch, queue, closed, phase⟩ := writer
    cases phase <;> simp_all [runFor, work, ShardPhase.work, isWaiting]
  | succ steps ih =>
    cases hw : writer.isWaiting with
    | true => rw [runFor_of_isWaiting _ _ hw, hw]
    | false =>
      simp only [runFor]
      exact ih writer.step.2 (Nat.le_of_lt_succ (Nat.lt_of_lt_of_le (work_step_lt writer hw) h))

theorem isWaiting_run (writer : ShardWriter) : writer.run.2.isWaiting = true :=
  isWaiting_runFor _ _ (Nat.le_refl _)

end ShardWriter

end EventReplay
