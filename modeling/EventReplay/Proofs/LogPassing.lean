import Mathlib.Data.List.Infix
import EventReplay.Log.Reader
import EventReplay.Proofs.LogListing

/-!
# What a reader of a log keeps of lines

The lines of a log that are not blank (`writtenLines`) are records (`logRecords`) or malformed, and of the
records those are kept that are no older than the last one kept before them (`keepOrdered`). A reader that
passes lines (`LogReader.Passes`) has kept exactly these events of them, and has counted the others.
-/

set_option autoImplicit false

namespace EventReplay

/-! ## Lines and records -/

/-- The lines that are not blank. -/
def writtenLines (lines : List Bytes) : List Bytes :=
  lines.filter fun line => !line.all Bytes.isAsciiBlank

/-- The records among the lines. -/
def logRecords (lines : List Bytes) : List Event :=
  (writtenLines lines).filterMap fun line => (readLogLine line).toOption

/-- Those of the events that are not below a time, which each of them raises to its own. -/
def keepOrdered (last : Option Int) : List Event → List Event
  | [] => []
  | event :: events =>
    if last.any (event.timestamp < ·) then keepOrdered last events
    else event :: keepOrdered (some event.timestamp) events

/-- The time behind some events that have been kept. -/
def lastTime (last : Option Int) (kept : List Event) : Option Int :=
  kept.foldl (fun _ event => some event.timestamp) last

theorem writtenLines_append (lines more : List Bytes) :
    writtenLines (lines ++ more) = writtenLines lines ++ writtenLines more :=
  List.filter_append ..

theorem logRecords_append (lines more : List Bytes) :
    logRecords (lines ++ more) = logRecords lines ++ logRecords more := by
  rw [logRecords, writtenLines_append, List.filterMap_append]
  rfl

theorem keepOrdered_append (last : Option Int) (events more : List Event) :
    keepOrdered last (events ++ more) =
      keepOrdered last events ++ keepOrdered (lastTime last (keepOrdered last events)) more := by
  induction events generalizing last with
  | nil => rfl
  | cons event events ih =>
    rw [List.cons_append, keepOrdered, keepOrdered]
    split
    · exact ih last
    · rw [ih, List.cons_append]
      rfl

/-- Kept events are not below the time that was there before them. -/
theorem le_of_mem_keepOrdered {last : Int} {events : List Event} {event : Event}
    (h : event ∈ keepOrdered (some last) events) : last ≤ event.timestamp := by
  induction events generalizing last with
  | nil => simp [keepOrdered] at h
  | cons first events ih =>
    rw [keepOrdered] at h
    split at h
    · exact ih h
    next hkept =>
      have hfirst : last ≤ first.timestamp := by simpa using hkept
      obtain rfl | h := List.mem_cons.mp h
      · exact hfirst
      · exact hfirst.trans (ih h)

/-- Kept events come in the order of their times. -/
theorem keepOrdered_ordered (last : Option Int) (events : List Event) :
    (keepOrdered last events).Pairwise fun a b => a.timestamp ≤ b.timestamp := by
  induction events generalizing last with
  | nil => exact List.Pairwise.nil
  | cons event events ih =>
    rw [keepOrdered]
    split
    · exact ih last
    · exact List.Pairwise.cons (fun _ h => le_of_mem_keepOrdered h) (ih _)

/-- The first line is cut off, with the line feed that ends it. -/
theorem Bytes.lines_cons (b : UInt8) (rest : Bytes) :
    lines (b :: rest) = (splitLine (b :: rest)).1 :: lines (splitLine (b :: rest)).2 := by
  induction rest generalizing b with
  | nil => by_cases hb : b = lineFeed <;> simp [lines, splitLine, hb]
  | cons c rest ih =>
    rw [lines, splitLine]
    by_cases hb : b = lineFeed
    · simp [hb]
    · rw [if_neg hb, if_neg hb, ih c]

namespace LogReader

/-! ## Passing lines -/

/-- A reader that has passed some lines and kept some of their events has become the other reader. -/
structure Passes (reader reader' : LogReader) (lines : List Bytes) (kept : List Event) : Prop where
  kept_eq : kept = keepOrdered reader.last (logRecords lines)
  last_eq : reader'.last = lastTime reader.last kept
  events : reader'.counts.events = reader.counts.events + kept.length
  malformed : reader'.counts.malformed + (logRecords lines).length =
    reader.counts.malformed + (writtenLines lines).length
  outOfOrder : reader'.counts.outOfOrder + kept.length =
    reader.counts.outOfOrder + (logRecords lines).length
  segments : reader'.counts.segments + reader'.pending.length =
    reader.counts.segments + reader.pending.length

theorem Passes.refl (reader : LogReader) : reader.Passes reader [] [] :=
  ⟨rfl, rfl, rfl, rfl, rfl, rfl⟩

theorem Passes.trans {reader reader₁ reader₂ : LogReader} {lines lines' : List Bytes}
    {kept kept' : List Event} (h : reader.Passes reader₁ lines kept)
    (h' : reader₁.Passes reader₂ lines' kept') :
    reader.Passes reader₂ (lines ++ lines') (kept ++ kept') where
  kept_eq := by
    rw [logRecords_append, keepOrdered_append, ← h.kept_eq, ← h.last_eq, ← h'.kept_eq]
  last_eq := by
    rw [h'.last_eq, h.last_eq]
    exact (List.foldl_append ..).symm
  events := by
    rw [h'.events, h.events, List.length_append, Nat.add_assoc]
  malformed := by
    have := h.malformed
    have := h'.malformed
    rw [logRecords_append, writtenLines_append, List.length_append, List.length_append]
    omega
  outOfOrder := by
    have := h.outOfOrder
    have := h'.outOfOrder
    rw [logRecords_append, List.length_append, List.length_append]
    omega
  segments := h'.segments.trans h.segments

/-- What is read ahead makes no difference to what is passed. -/
theorem Passes.look {reader reader' : LogReader} {ahead : Option Event} {lines : List Bytes}
    {kept : List Event} (h : { reader with ahead }.Passes reader' lines kept) (ahead' : Option Event) :
    reader.Passes { reader' with ahead := ahead' } lines kept :=
  ⟨h.kept_eq, h.last_eq, h.events, h.malformed, h.outOfOrder, h.segments⟩

variable {reader : LogReader} {line : Bytes}

theorem Passes.blank (hblank : line.all Bytes.isAsciiBlank = true) :
    reader.Passes reader [line] [] := by
  have hwritten : writtenLines [line] = [] := by simp [writtenLines, hblank]
  have hrecords : logRecords [line] = [] := by rw [logRecords, hwritten]; rfl
  constructor <;> simp [hwritten, hrecords, keepOrdered, lastTime]

theorem Passes.skipMalformed {fault : LogLineFault} (hblank : ¬ line.all Bytes.isAsciiBlank = true)
    (hline : readLogLine line = .error fault) : reader.Passes reader.skipMalformed [line] [] := by
  have hwritten : writtenLines [line] = [line] := by simp [writtenLines, hblank]
  have hrecords : logRecords [line] = [] := by simp [logRecords, hwritten, hline, Except.toOption]
  constructor <;> simp [hwritten, hrecords, keepOrdered, lastTime, LogReader.skipMalformed]

theorem logRecords_singleton {event : Event} (hblank : ¬ line.all Bytes.isAsciiBlank = true)
    (hline : readLogLine line = .ok event) :
    writtenLines [line] = [line] ∧ logRecords [line] = [event] := by
  have hwritten : writtenLines [line] = [line] := by simp [writtenLines, hblank]
  exact ⟨hwritten, by simp [logRecords, hwritten, hline, Except.toOption]⟩

theorem Passes.skipOld {event : Event} {last : Int} (hblank : ¬ line.all Bytes.isAsciiBlank = true)
    (hline : readLogLine line = .ok event) (hold : reader.isOld event.timestamp = some last) :
    reader.Passes reader.skipOld [line] [] := by
  obtain ⟨hwritten, hrecords⟩ := logRecords_singleton hblank hline
  have hbelow : reader.last.any (event.timestamp < ·) = true := by
    rw [isOld] at hold
    split at hold
    · simp at hold
    next last' hlast =>
      split at hold
      next hlt => simpa [hlast] using hlt
      next => simp at hold
  constructor <;> simp [hwritten, hrecords, keepOrdered, lastTime, hbelow, LogReader.skipOld]

theorem Passes.keep {event : Event} (hblank : ¬ line.all Bytes.isAsciiBlank = true)
    (hline : readLogLine line = .ok event) (hkept : reader.isOld event.timestamp = none) :
    reader.Passes (reader.keep event) [line] [event] := by
  obtain ⟨hwritten, hrecords⟩ := logRecords_singleton hblank hline
  have hbelow : reader.last.any (event.timestamp < ·) = false := by
    rw [isOld] at hkept
    split at hkept
    next hlast => simp [hlast]
    next last hlast =>
      split at hkept
      next => simp at hkept
      next hge => simpa [hlast] using hge
  constructor <;> simp [hwritten, hrecords, keepOrdered, lastTime, hbelow, LogReader.keep]

theorem Passes.moveTo (segment : OpenSegment) : reader.Passes (reader.moveTo segment) [] [] :=
  ⟨rfl, rfl, rfl, rfl, rfl, rfl⟩

theorem Passes.leave : reader.Passes reader.leave [] [] :=
  ⟨rfl, rfl, rfl, rfl, rfl, rfl⟩

theorem Passes.enter {path : String} {paths : List String} (hpending : reader.pending = path :: paths) :
    reader.Passes (reader.enter paths) [] [] := by
  refine ⟨rfl, rfl, rfl, rfl, rfl, ?_⟩
  simp only [LogReader.enter, hpending, List.length_cons]
  omega

/-- The events among some lines that a reader keeps. -/
def accepted (reader : LogReader) (lines : List Bytes) : List Event :=
  keepOrdered reader.last (logRecords lines)

theorem Passes.accepted_append {reader' : LogReader} {passed : List Bytes} {kept : List Event}
    (h : reader.Passes reader' passed kept) (lines : List Bytes) :
    reader.accepted (passed ++ lines) = kept ++ reader'.accepted lines := by
  rw [accepted, accepted, logRecords_append, keepOrdered_append, ← h.kept_eq, ← h.last_eq]

end LogReader

end EventReplay
