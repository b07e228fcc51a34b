import EventReplay.Log.Line
import EventReplay.Storage.AppendFile

/-!
# Writing an event log

A `LogWriter` appends events to a segment through a buffer. What has not been flushed is not in the
file yet.
-/

set_option autoImplicit false

namespace EventReplay

/-- A segment that is being written. -/
structure LogWriter where
  path : String
  /-- Where the path leads. -/
  place : Path
  file : AppendFile
  /-- The events that were appended. -/
  appended : Nat := 0

namespace LogWriter

/-- Opens a segment for appending and makes the directories above it. -/
def ofPath (files : FileTree) (path : String) : Except FileFault (LogWriter × FileTree) :=
  match files.openAppendIn path with
  | .error fault => .error fault
  | .ok (place, files) => .ok (⟨path, place, { content := (files.file? place).getD [] }, 0⟩, files)

/-- Appends an event; gives the number of bytes of its line. -/
def append (writer : LogWriter) (event : Event) : Except FileFault Nat × LogWriter :=
  let line := logLine event
  match writer.file.writeAll [line.dropLast, [Bytes.lineFeed]] with
  | (.ok (), file) => (.ok line.length, { writer with file, appended := writer.appended + 1 })
  | (.error fault, file) => (.error fault, { writer with file })

/-- Hands what waits in the buffer to the file, as letting go of the writer does. -/
def flush (writer : LogWriter) : Except FileFault Unit × LogWriter :=
  let (result, file) := writer.file.flush
  (result, { writer with file })

/-- The files with the segment as it has been written so far. -/
def store (writer : LogWriter) (files : FileTree) : FileTree :=
  files.update writer.place writer.file.content

end LogWriter

end EventReplay
