import EventReplay.Millis
import EventReplay.Notice
import EventReplay.Storage.FileTree

/-!
# Writing documents in batches

A `Batch` collects documents for a search index and hands them to a bulk endpoint all at once: when
there are enough of them, when the last hand-over is too long ago, or when it is told to. A refused
batch is kept and handed over again together with what comes after it, so no document is lost, doubled
or moved before another one.
-/

set_option autoImplicit false

namespace EventReplay

/-- A document for a search index. -/
structure Document where
  index : String
  docType : String
  source : String
deriving DecidableEq, Repr

/-- Why a bulk endpoint refuses a batch. -/
inductive BulkFault where
  | io (cause : FileFault)
  | refused (reason : String)
deriving DecidableEq, Repr

/-- The fault in words. -/
def BulkFault.message : BulkFault → String
  | io cause => "io error: " ++ cause.message
  | refused reason => "bulk write failed: " ++ reason

/-- An endpoint that takes documents, all of a batch or none. -/
class BulkEndpoint (ω : Type) where
  write : List Document → ω → Except BulkFault Unit × ω

/-- Documents that wait for a bulk endpoint. -/
structure Batch (ω : Type) where
  endpoint : ω
  index : String
  docType : String
  /-- So many documents are handed over at once. -/
  size : Nat := 500
  /-- So long a time after the last hand-over the next document causes one, in whole milliseconds. Ages
  are whole milliseconds, so that a limit with a fraction acts as the next whole one. -/
  maxAge : Nat := 5000
  documents : List Document := []
  /-- The time of the last hand-over. -/
  lastFlush : Int

namespace Batch

variable {ω : Type} [BulkEndpoint ω]

/-- Sets the limits; a batch holds at least one document. -/
def withLimits (batch : Batch ω) (size maxAge : Nat) : Batch ω :=
  { batch with size := max size 1, maxAge }

/-- The time since the last hand-over; none has passed when the clock went back. -/
def age (batch : Batch ω) (now : Int) : Int := max 0 (Millis.sub now batch.lastFlush)

/-- Hands all documents over. A refused batch is left as it was. -/
def flush (batch : Batch ω) (now : Int) : Except BulkFault Unit × Batch ω :=
  if batch.documents = [] then (.ok (), { batch with lastFlush := now })
  else
    match BulkEndpoint.write batch.documents batch.endpoint with
    | (.ok (), endpoint) => (.ok (), { batch with endpoint, documents := [], lastFlush := now })
    | (.error fault, endpoint) => (.error fault, { batch with endpoint })

/-- Adds a document, and hands over when there are enough or the last hand-over is too long ago. -/
def invoke (batch : Batch ω) (now : Int) (source : String) : Batch ω × List Notice :=
  let batch :=
    { batch with documents := batch.documents ++ [⟨batch.index, batch.docType, source⟩] }
  if batch.size ≤ batch.documents.length ∨ (batch.maxAge : Int) ≤ batch.age now then
    match batch.flush now with
    | (.ok (), batch) => (batch, [])
    | (.error fault, batch) =>
      (batch, [.bulkFlushFailed fault.message batch.documents.length])
  else (batch, [])

/-- Hands over again and again until no document waits, `attempts` times at most; `tried` attempts
have been made before. -/
def flushUntilEmpty (now : Int) : Nat → Nat → Batch ω → Batch ω × List Notice
  | 0, _, batch => (batch, [])
  | attempts + 1, tried, batch =>
    if batch.documents = [] then (batch, [])
    else
      match batch.flush now with
      | (.ok (), batch) => flushUntilEmpty now attempts (tried + 1) batch
      | (.error fault, batch) =>
        let notice := Notice.checkpointFailed fault.message (tried + 1) batch.documents.length
        let (batch, notices) := flushUntilEmpty now attempts (tried + 1) batch
        (batch, notice :: notices)

/-- A checkpoint: hands over until no document waits, `attempts` times at most. -/
def snapshot (batch : Batch ω) (now : Int) (attempts : Nat) : Batch ω × List Notice :=
  flushUntilEmpty now attempts 0 batch

end Batch

end EventReplay
