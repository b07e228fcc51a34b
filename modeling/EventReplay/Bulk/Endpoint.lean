import EventReplay.Bulk.Batch
import EventReplay.Json.Quoted
import EventReplay.Storage.AppendFile

/-!
# Bulk endpoints

A file in newline-delimited bulk format, where each document follows a line that names its index, and
an endpoint in memory that refuses some of its calls.
-/

set_option autoImplicit false

namespace EventReplay

/-- A file of bulk requests. -/
structure BulkFile where
  place : Path
  file : AppendFile

namespace BulkFile

/-- Opens a file for appending and makes the directories above it. -/
def ofPath (files : FileTree) (path : String) : Except FileFault (BulkFile × FileTree) :=
  match files.openAppendIn path with
  | .error fault => .error fault
  | .ok (place, files) => .ok (⟨place, { content := (files.file? place).getD [] }⟩, files)

/-- The line that names the index and the type of a document. -/
def action (document : Document) : Bytes :=
  Bytes.ofAscii "\x7b\"index\":\x7b\"_index\":" ++ Json.quoted document.index ++
  Bytes.ofAscii ",\"_type\":" ++ Json.quoted document.docType ++ Bytes.ofAscii "\x7d\x7d"

/-- What is written for a document, piece by piece. -/
def pieces (document : Document) : List Bytes :=
  [action document, [Bytes.lineFeed], Utf8.encode document.source, [Bytes.lineFeed]]

/-- Writes the documents and flushes. -/
def write (documents : List Document) (bulk : BulkFile) : Except BulkFault Unit × BulkFile :=
  match bulk.file.writeAll (documents.flatMap pieces) with
  | (.error fault, file) => (.error (.io fault), { bulk with file })
  | (.ok (), file) =>
    match file.flush with
    | (.error fault, file) => (.error (.io fault), { bulk with file })
    | (.ok (), file) => (.ok (), { bulk with file })

instance : BulkEndpoint BulkFile where
  write := write

end BulkFile

/-- An endpoint in memory. -/
structure BulkRecorder where
  /-- Whether each of the next calls is refused; all calls after those are taken. -/
  refusals : List Bool := []
  /-- The calls made. -/
  calls : Nat := 0
  /-- The batches taken, in order. -/
  taken : List (List Document) := []

namespace BulkRecorder

/-- Takes a batch, or refuses it if it is this call's turn. -/
def write (documents : List Document) (recorder : BulkRecorder) :
    Except BulkFault Unit × BulkRecorder :=
  let calls := recorder.calls + 1
  let recorder' := { recorder with calls, refusals := recorder.refusals.tail }
  if recorder.refusals.head? = some true then
    (.error (.refused ("call " ++ toString calls ++ " refused")), recorder')
  else (.ok (), { recorder' with taken := recorder.taken ++ [documents] })

instance : BulkEndpoint BulkRecorder where
  write := write

end BulkRecorder

end EventReplay
