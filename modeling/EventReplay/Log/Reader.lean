import EventReplay.Log.Segment
import EventReplay.Source
import EventReplay.Storage.Disk

/-!
# Reading an event log

A `LogReader` reads the segments of a log one after another and a line at a time. It leaves out blank
lines, lines that are no record, and records older than the last one it kept, and it counts them. One
event is read ahead, so that it is known whether another one follows. Opening a segment can fail, and so can
each line and the end of one (`LogReader.round`).
-/

set_option autoImplicit false

namespace EventReplay

/-- What a reader has come across. -/
structure LogCounts where
  /-- Segments that were opened. -/
  segments : Nat := 0
  /-- Events that were kept, the one read ahead included. -/
  events : Nat := 0
  /-- Lines that are no record. -/
  malformed : Nat := 0
  /-- Records older than the one kept before them. -/
  outOfOrder : Nat := 0
deriving DecidableEq, Repr

/-- A segment that is being read. -/
structure OpenSegment where
  /-- Its path as it is shown. -/
  path : String
  /-- The lines that have been read. -/
  line : Nat := 0
  /-- The bytes of the segment that have been seen, read or not. -/
  seen : Nat
  unread : Bytes
deriving DecidableEq, Repr

namespace OpenSegment

/-- The segment behind its next line. -/
def next (segment : OpenSegment) : OpenSegment :=
  { segment with line := segment.line + 1, unread := (Bytes.splitLine segment.unread).2 }

/-- The segment without the first bytes of its next line, which a read has taken that failed. -/
def lose (segment : OpenSegment) (count : Nat) : OpenSegment :=
  let line := segment.unread.takeWhile (· ≠ Bytes.lineFeed)
  { segment with unread := segment.unread.drop (min count line.length) }

/-- The segment with what has been appended to its file since it was opened. -/
def refresh (files : FileTree) (segment : OpenSegment) : OpenSegment :=
  match files.read segment.path with
  | .error _ => segment
  | .ok content =>
    { segment with
      seen := max segment.seen content.length
      unread := segment.unread ++ content.drop segment.seen }

theorem next_length {segment : OpenSegment} (h : segment.unread ≠ []) :
    segment.next.unread.length < segment.unread.length := by
  obtain ⟨b, rest, hunread⟩ := List.exists_cons_of_ne_nil h
  show (Bytes.splitLine segment.unread).2.length < segment.unread.length
  rw [hunread]
  exact Bytes.splitLine_cons_length b rest

end OpenSegment

/-- A reader of the segments of a log. -/
structure LogReader where
  /-- The segments that have not been opened. -/
  pending : List String
  current : Option OpenSegment := none
  /-- A segment that was opened and cannot be read, with the cause. -/
  broken : Option (String × FileFault) := none
  /-- The event read ahead. -/
  ahead : Option Event := none
  /-- The time of the last event kept. -/
  last : Option Int := none
  counts : LogCounts := {}

namespace LogReader

/-- Counts a line that is no record. -/
def skipMalformed (reader : LogReader) : LogReader :=
  { reader with counts := { reader.counts with malformed := reader.counts.malformed + 1 } }

/-- Counts a record that is older than the last one kept. -/
def skipOld (reader : LogReader) : LogReader :=
  { reader with counts := { reader.counts with outOfOrder := reader.counts.outOfOrder + 1 } }

/-- Keeps an event. -/
def keep (reader : LogReader) (event : Event) : LogReader :=
  { reader with
    last := some event.timestamp
    counts := { reader.counts with events := reader.counts.events + 1 } }

/-- Stands in a segment. -/
def moveTo (reader : LogReader) (segment : OpenSegment) : LogReader :=
  { reader with current := some segment }

/-- Leaves a segment that has been read to its end. -/
def leave (reader : LogReader) : LogReader := { reader with current := none }

/-- Goes over to the first of the segments that have not been opened. -/
def enter (reader : LogReader) (paths : List String) : LogReader :=
  { reader with
    pending := paths
    counts := { reader.counts with segments := reader.counts.segments + 1 } }

/-- Fails to go over to the first of the segments that have not been opened. A directory can be opened; it
stays open and cannot be read, while any other cause leaves the segment behind. -/
def stumble (reader : LogReader) (path : String) (paths : List String) (cause : FileFault) : LogReader :=
  if cause = .isDirectory then { reader.enter paths with broken := some (path, cause) }
  else { reader with pending := paths }

/-- Whether a record with this time is older than the last one kept. -/
def isOld (reader : LogReader) (timestamp : Int) : Option Int :=
  match reader.last with
  | none => none
  | some last => if timestamp < last then some last else none

/-! ## Rounds -/

/-- What one round of reading comes to. -/
inductive Round where
  /-- The reader gets on, perhaps to an event. -/
  | on (event : Option Event) (reader : LogReader) (notices : List Notice)
  /-- No segment is left. -/
  | ended
  | failed (fault : SourceFault) (reader : LogReader)

/-- Opens the next segment. -/
def openNext (disk : Disk) (reader : LogReader) : Round :=
  match reader.pending with
  | [] => .ended
  | path :: paths =>
    match disk.openFile path with
    | .error cause => .failed (.unreadable path cause) (reader.stumble path paths cause)
    | .ok content => .on none ((reader.enter paths).moveTo ⟨path, 0, content.length, content⟩) []

/-- Takes a line that has been read of a segment. -/
def takeLine (reader : LogReader) (segment : OpenSegment) (line : Bytes) : Round :=
  if line.all Bytes.isAsciiBlank then .on none reader []
  else
    match readLogLine line with
    | .error fault =>
      .on none reader.skipMalformed [.malformedRecord segment.path segment.line fault]
    | .ok event =>
      match reader.isOld event.timestamp with
      | some last =>
        .on none reader.skipOld [.outOfOrder segment.path segment.line event.timestamp last]
      | none => .on (some event) (reader.keep event) []

/-- Reads the next line of a segment, or comes to its end. Where that fails, the segment stays open. -/
def readLine (disk : Disk) (reader : LogReader) (segment : OpenSegment) : Round :=
  match disk.readFault segment.path segment.line with
  | some fault =>
    .failed (.unreadable segment.path fault.cause) (reader.moveTo (segment.lose fault.lost))
  | none =>
    if segment.unread = [] then .on none reader.leave []
    else takeLine (reader.moveTo segment.next) segment.next (Bytes.splitLine segment.unread).1

/-- Opens a segment, or reads a line of the open one. -/
def round (disk : Disk) (reader : LogReader) : Round :=
  match reader.broken with
  | some (path, cause) => .failed (.unreadable path cause) reader
  | none =>
    match reader.current with
    | none => openNext disk reader
    | some segment => readLine disk reader segment

/-! ## Rounds come to an end -/

/-- What is left to read of the open segment. -/
def unreadLength (reader : LogReader) : Nat :=
  match reader.current with
  | none => 0
  | some segment => segment.unread.length + 1

/-- Fewer segments are left to open than before another reader, or as many and less of the open one. -/
def Shorter (reader' reader : LogReader) : Prop :=
  reader'.pending.length < reader.pending.length ∨
    (reader'.pending.length = reader.pending.length ∧ reader'.unreadLength < reader.unreadLength)

theorem Shorter.trans {reader reader₁ reader₂ : LogReader} (h : reader₂.Shorter reader₁)
    (h' : reader₁.Shorter reader) : reader₂.Shorter reader := by
  unfold Shorter at *
  omega

/-- A line that is taken leaves the reader in its place. -/
theorem takeLine_place {reader reader' : LogReader} {segment : OpenSegment} {line : Bytes}
    {event : Option Event} {notices : List Notice}
    (h : takeLine reader segment line = .on event reader' notices) :
    reader'.pending = reader.pending ∧ reader'.current = reader.current := by
  unfold takeLine at h
  split at h
  · cases h
    exact ⟨rfl, rfl⟩
  split at h
  · cases h
    exact ⟨rfl, rfl⟩
  split at h
  all_goals
    cases h
    exact ⟨rfl, rfl⟩

theorem readLine_shorter {disk : Disk} {reader reader' : LogReader} {segment : OpenSegment}
    {event : Option Event} {notices : List Notice} (hcurrent : reader.current = some segment)
    (h : readLine disk reader segment = .on event reader' notices) : reader'.Shorter reader := by
  have hbefore : reader.unreadLength = segment.unread.length + 1 := by rw [unreadLength, hcurrent]
  unfold readLine at h
  split at h
  · cases h
  split at h
  · cases h
    exact Or.inr ⟨rfl, by simp [unreadLength, leave, hcurrent]⟩
  next hunread =>
    obtain ⟨hpending, hplace⟩ := takeLine_place h
    have hafter : reader'.unreadLength = segment.next.unread.length + 1 := by
      rw [unreadLength, hplace]
      rfl
    have := OpenSegment.next_length hunread
    exact Or.inr ⟨by rw [hpending]; rfl, by omega⟩

theorem round_shorter {disk : Disk} {reader reader' : LogReader} {event : Option Event}
    {notices : List Notice} (h : round disk reader = .on event reader' notices) :
    reader'.Shorter reader := by
  unfold round at h
  split at h
  · cases h
  split at h
  · unfold openNext at h
    split at h
    · cases h
    next path paths hpending =>
      split at h
      · cases h
      · cases h
        exact Or.inl (by simp [moveTo, enter, hpending])
  next segment hcurrent => exact readLine_shorter hcurrent h

/-! ## Reading -/

/-- Reads on to the next event that is kept. -/
def readFrom (disk : Disk) (reader : LogReader) (notices : List Notice) :
    Pull LogReader (Option Event) :=
  match _h : round disk reader with
  | .ended => ⟨.ok none, reader, notices⟩
  | .failed fault reader => ⟨.error fault, reader, notices⟩
  | .on (some event) reader more => ⟨.ok (some event), reader, notices ++ more⟩
  | .on none reader more => readFrom disk reader (notices ++ more)
termination_by (reader.pending.length, reader.unreadLength)
decreasing_by
  rw [Prod.lex_def]
  exact round_shorter _h

section

variable {disk : Disk} {reader reader' : LogReader} {more : List Notice}

theorem readFrom_ended (h : round disk reader = .ended) (notices : List Notice) :
    readFrom disk reader notices = ⟨.ok none, reader, notices⟩ := by
  rw [readFrom]
  split <;> simp_all

theorem readFrom_failed {fault : SourceFault} (h : round disk reader = .failed fault reader')
    (notices : List Notice) : readFrom disk reader notices = ⟨.error fault, reader', notices⟩ := by
  rw [readFrom]
  split <;> simp_all

theorem readFrom_event {event : Event} (h : round disk reader = .on (some event) reader' more)
    (notices : List Notice) :
    readFrom disk reader notices = ⟨.ok (some event), reader', notices ++ more⟩ := by
  rw [readFrom]
  split <;> simp_all

theorem readFrom_on (h : round disk reader = .on none reader' more) (notices : List Notice) :
    readFrom disk reader notices = readFrom disk reader' (notices ++ more) := by
  rw [readFrom]
  split <;> simp_all

end

/-- Reads on, with nothing told so far. -/
def readOn (disk : Disk) (reader : LogReader) : Pull LogReader (Option Event) := readFrom disk reader []

/-- Reading on to an event gets on. -/
theorem readFrom_shorter {disk : Disk} {reader : LogReader} {notices : List Notice} {event : Event}
    (h : (readFrom disk reader notices).answer = .ok (some event)) :
    (readFrom disk reader notices).source.Shorter reader := by
  fun_induction readFrom disk reader notices with
  | case1 => simp at h
  | case2 => simp at h
  | case3 reader notices event' reader' more hround => exact round_shorter hround
  | case4 reader notices reader' more hround ih => exact (ih h).trans (round_shorter hround)

theorem readOn_shorter {disk : Disk} {reader reader' : LogReader} {event : Event}
    {notices : List Notice} (h : readOn disk reader = ⟨.ok (some event), reader', notices⟩) :
    reader'.Shorter reader := by
  have hshorter : (readOn disk reader).source.Shorter reader := readFrom_shorter (by rw [← readOn, h])
  rwa [h] at hshorter

/-- A reader of the segments below a root whose path starts with some text, with the first event read
ahead. -/
def ofRoot (disk : Disk) (root start : String) : Except SourceFault (LogReader × List Notice) :=
  match listSegments disk.files root start with
  | .error cause => .error (.unlisted root cause)
  | .ok pending =>
    match readOn disk { pending } with
    | ⟨.error fault, _, _⟩ => .error fault
    | ⟨.ok ahead, reader, notices⟩ => .ok ({ reader with ahead }, notices)

/-- Hands out the event read ahead and reads the next one ahead. If that fails, the event is gone. -/
def next (disk : Disk) (reader : LogReader) : Pull LogReader (Option Event) :=
  match reader.ahead with
  | none => ⟨.ok none, reader, []⟩
  | some event =>
    match readOn disk { reader with ahead := none } with
    | ⟨.error fault, reader, notices⟩ => ⟨.error fault, reader, notices⟩
    | ⟨.ok ahead, reader, notices⟩ => ⟨.ok (some event), { reader with ahead }, notices⟩

/-- Skips the events before a time. If reading ahead fails, the event that was read ahead stays. -/
def seek (disk : Disk) (time : Int) (reader : LogReader) (notices : List Notice) :
    Pull LogReader Unit :=
  match reader.ahead with
  | none => ⟨.ok (), reader, notices⟩
  | some event =>
    if time ≤ event.timestamp then ⟨.ok (), reader, notices⟩
    else
      match _h : readOn disk reader with
      | ⟨.error fault, reader, more⟩ => ⟨.error fault, reader, notices ++ more⟩
      | ⟨.ok none, reader, more⟩ => ⟨.ok (), { reader with ahead := none }, notices ++ more⟩
      | ⟨.ok (some event), reader, more⟩ =>
        seek disk time { reader with ahead := some event } (notices ++ more)
termination_by (reader.pending.length, reader.unreadLength)
decreasing_by
  rw [Prod.lex_def]
  exact readOn_shorter _h

/-- Hands out events until none is left or reading ahead fails. -/
def drain (disk : Disk) (reader : LogReader) (notices : List Notice) :
    Pull LogReader Unit × List Event :=
  match reader.ahead with
  | none => (⟨.ok (), reader, notices⟩, [])
  | some event =>
    match _h : readOn disk { reader with ahead := none } with
    | ⟨.error fault, reader, more⟩ => (⟨.error fault, reader, notices ++ more⟩, [])
    | ⟨.ok none, reader, more⟩ => (⟨.ok (), { reader with ahead := none }, notices ++ more⟩, [event])
    | ⟨.ok (some following), reader, more⟩ =>
      let (pull, events) :=
        drain disk { reader with ahead := some following } (notices ++ more)
      (pull, event :: events)
termination_by (reader.pending.length, reader.unreadLength)
decreasing_by
  have shorter : LogReader.Shorter _ _ := readOn_shorter _h
  rw [Prod.lex_def]
  exact shorter

/-- Takes in what has been appended to the open segment since it was opened. -/
def refresh (files : FileTree) (reader : LogReader) : LogReader :=
  { reader with current := reader.current.map (OpenSegment.refresh files) }

end LogReader

/-- A reader together with the files that it reads. -/
structure OpenLog where
  files : FileTree
  reader : LogReader

instance : EventSource OpenLog where
  hasNext log := log.reader.ahead.isSome
  next log :=
    let pull := log.reader.next log.files
    ⟨pull.answer, { log with reader := pull.source }, pull.notices⟩
  seek time log :=
    let pull := log.reader.seek log.files time []
    ⟨pull.answer, { log with reader := pull.source }, pull.notices⟩
  drain log :=
    let (pull, events) := log.reader.drain log.files []
    (⟨pull.answer, { log with reader := pull.source }, pull.notices⟩, events)

end EventReplay
