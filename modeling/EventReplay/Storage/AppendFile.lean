import EventReplay.Storage.FileTree

/-!
# Files written through a buffer

An `AppendFile` is a file open for appending, with a buffer of 8192 bytes in front of its device. The
device may refuse a write, perhaps after taking a part of it; what the buffer then still holds stays
there. All that was ever accepted is the device's content and the buffer's behind it
(`AppendFile.written`), as long as no write goes past the buffer into a device that refuses it.
-/

set_option autoImplicit false

namespace EventReplay

/-- What the device makes of one write. -/
inductive DeviceAnswer where
  /-- It takes all bytes. -/
  | takes
  /-- It takes at most this many bytes and refuses the others. -/
  | refusesAfter (taken : Nat)
deriving DecidableEq, Repr

/-- A file open for appending. -/
structure AppendFile where
  /-- What the device holds. -/
  content : Bytes
  /-- What waits in the buffer. -/
  pending : Bytes := []
  /-- What the device makes of the next writes, first to come first. -/
  answers : List DeviceAnswer := []
  /-- What the device makes of all writes after those. -/
  afterwards : DeviceAnswer := .takes
  /-- Whether the device can be asked to keep its content for good. -/
  durable : Bool := true

namespace AppendFile

/-- The size of the buffer. -/
def capacity : Nat := 8192

/-- A file on a device that takes nothing. -/
def onFullDevice : AppendFile := { content := [], afterwards := .refusesAfter 0, durable := false }

/-- The number of bytes that the device takes of a write, and the file afterwards. -/
def toDevice (file : AppendFile) (bytes : Bytes) : Nat × AppendFile :=
  let (answer, answers) :=
    match file.answers with
    | [] => (file.afterwards, [])
    | answer :: answers => (answer, answers)
  let taken :=
    match answer with
    | .takes => bytes.length
    | .refusesAfter taken => min taken bytes.length
  (taken, { file with content := file.content ++ bytes.take taken, answers })

/-- Hands the buffer to the device. What the device refuses stays in the buffer. -/
def flush (file : AppendFile) : Except FileFault Unit × AppendFile :=
  if file.pending = [] then (.ok (), file)
  else
    let (taken, file') := file.toDevice file.pending
    let file' := { file' with pending := file.pending.drop taken }
    (if file'.pending = [] then .ok () else .error .noSpace, file')

/-- Hands the buffer to the device and asks it to keep its content for good. -/
def sync (file : AppendFile) : Except FileFault Unit × AppendFile :=
  match file.flush with
  | (.ok (), file) => (if file.durable then .ok () else .error .unsupported, file)
  | (.error fault, file) => (.error fault, file)

/-- Writes past the buffer. What the device refuses is lost. -/
def writeThrough (file : AppendFile) (bytes : Bytes) : Except FileFault Unit × AppendFile :=
  let (taken, file') := file.toDevice bytes
  (if taken = bytes.length then .ok () else .error .noSpace, file')

/-- Puts bytes into the buffer, or past it when they could never fit. The buffer makes room for bytes
that do not fit behind what it holds. -/
def write (file : AppendFile) (bytes : Bytes) : Except FileFault Unit × AppendFile :=
  let enter (file : AppendFile) : Except FileFault Unit × AppendFile :=
    if capacity ≤ bytes.length then file.writeThrough bytes
    else (.ok (), { file with pending := file.pending ++ bytes })
  if bytes.length ≤ capacity - file.pending.length then enter file
  else
    match file.flush with
    | (.ok (), file) => enter file
    | (.error fault, file) => (.error fault, file)

/-- Writes one piece after another up to the first that fails. -/
def writeAll (file : AppendFile) : List Bytes → Except FileFault Unit × AppendFile
  | [] => (.ok (), file)
  | piece :: pieces =>
    match file.write piece with
    | (.ok (), file) => writeAll file pieces
    | (.error fault, file) => (.error fault, file)

/-- What the device holds and what the buffer holds behind it. -/
def written (file : AppendFile) : Bytes := file.content ++ file.pending

end AppendFile

end EventReplay
