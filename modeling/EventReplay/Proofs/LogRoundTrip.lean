import Mathlib.Algebra.Ring.Nat
import EventReplay.Proofs.EmbeddedText
import EventReplay.Proofs.LogToStream
import EventReplay.Proofs.WrittenFiles

/-!
# A log is read as it was written

Events that are appended in order to a fresh segment are all that a reader finds there
(`LogWriter.round_trip`), each with its payload as it was embedded. Appended to another segment, what was
read makes the same file again.
-/

set_option autoImplicit false

namespace EventReplay

/-- The event as a log gives it back, with the payload as it is embedded. -/
def Event.embedded (event : Event) : Event := { event with payload := embed event.payload }

theorem logLine_embedded (event : Event) : logLine event.embedded = logLine event := by
  rw [logLine_eq, logLine_eq, logText, logText, Event.embedded, embed_embed]

/-! ## Lines of events -/

/-- Events in the order of their times are all kept. -/
theorem keepOrdered_of_ordered {last : Option Int} {events : List Event}
    (hlast : ∀ t ∈ last, ∀ event ∈ events, t ≤ event.timestamp)
    (hordered : events.Pairwise fun a b => a.timestamp ≤ b.timestamp) :
    keepOrdered last events = events := by
  induction events generalizing last with
  | nil => rfl
  | cons event events ih =>
      have hkeep : ¬ last.any (event.timestamp < ·) = true := by
        intro hold
        obtain ⟨t, ht, hless⟩ := (Option.any_eq_true _ _).mp hold
        have hle := hlast t ht event List.mem_cons_self
        simp only [decide_eq_true_eq] at hless
        omega
      rw [keepOrdered, if_neg hkeep, ih _ hordered.of_cons]
      intro t ht event' hevent'
      obtain rfl : event.timestamp = t := Option.some.inj ht
      exact List.rel_of_pairwise_cons hordered hevent'

/-- What is written for events whose payloads are in one line has a line for each. -/
theorem lines_logLines {events : List Event} (hlines : ∀ event ∈ events, event.InOneLine) :
    Bytes.lines (events.map logLine).flatten = events.map logLine := by
  apply Bytes.lines_flatten
  rw [List.forall_mem_map]
  exact fun event hevent =>
    ⟨logText event, logLine_eq event, (lineFeed_notMem_logText_iff event).mpr (hlines event hevent)⟩

/-- The line of an event is not blank, and its record is the event. -/
theorem records_logLine {event : Event} (ht : Millis.InRange event.timestamp) :
    writtenLines [logLine event] = [logLine event] ∧ logRecords [logLine event] = [event.embedded] := by
  have hbrace : ascii '\x7b' ∈ logLine event := List.mem_of_head? rfl
  have hfull := seesBraces_log (logLine event) (.inl hbrace)
  have hblank : ¬ (logLine event).all Bytes.isAsciiBlank = true := by
    rw [Bool.not_eq_true]
    exact hfull
  exact LogReader.logRecords_singleton hblank (readLogLine_logLine ht)

theorem records_logLines {events : List Event}
    (htimes : ∀ event ∈ events, Millis.InRange event.timestamp) :
    writtenLines (events.map logLine) = events.map logLine ∧
      logRecords (events.map logLine) = events.map Event.embedded := by
  induction events with
  | nil => exact ⟨rfl, rfl⟩
  | cons event events ih =>
      rw [List.forall_mem_cons] at htimes
      obtain ⟨hwritten, hrecords⟩ := ih htimes.2
      obtain ⟨hfirst, hrecord⟩ := records_logLine htimes.1
      rw [List.map_cons, List.map_cons, ← List.singleton_append, writtenLines_append, logRecords_append, hfirst,
        hrecord, hwritten, hrecords]
      exact ⟨rfl, rfl⟩

namespace LogWriter

variable {writer : LogWriter}

/-- On a device that takes all bytes an event is appended, and the size of its line is told. -/
theorem append_of_takes (h : writer.file.Takes) (event : Event) :
    ∃ written, writer.append event = (.ok (logLine event).length, written) ∧
      written.file.Takes ∧ written.place = writer.place ∧
      written.file.written = writer.file.written ++ logLine event := by
  obtain ⟨file, hwrite, htakes, hwritten⟩ :=
    AppendFile.writeAll_of_takes h [(logLine event).dropLast, [Bytes.lineFeed]]
  have hline : [(logLine event).dropLast, [Bytes.lineFeed]].flatten = logLine event := by
    rw [logLine_eq, List.dropLast_concat]
    simp
  rw [hline] at hwritten
  refine ⟨{ writer with file, appended := writer.appended + 1 }, ?_, htakes, rfl, hwritten⟩
  simp only [append, hwrite]

/-- On such a device all that waits in the buffer reaches the file. -/
theorem flush_of_takes (h : writer.file.Takes) :
    ∃ closed, writer.flush = (.ok (), closed) ∧ closed.place = writer.place ∧
      closed.file.content = writer.file.written := by
  refine ⟨{ writer with file := { writer.file with content := writer.file.written, pending := [] } }, ?_,
    rfl, rfl⟩
  rw [flush, AppendFile.flush_of_takes h]

theorem appendAll_of_takes (h : writer.file.Takes) (events : List Event) :
    ∃ written, writer.appendAll events = (events.map fun event => .ok (logLine event).length, written) ∧
      written.file.Takes ∧ written.place = writer.place ∧
      written.file.written = writer.file.written ++ (events.map logLine).flatten := by
  induction events generalizing writer with
  | nil => exact ⟨writer, rfl, h, rfl, by simp⟩
  | cons event events ih =>
      obtain ⟨first, happend, htakes, hplace, hwritten⟩ := append_of_takes h event
      obtain ⟨written, hrest, htakes', hplace', hwritten'⟩ := ih htakes
      refine ⟨written, ?_, htakes', hplace'.trans hplace, ?_⟩
      · simp only [appendAll, happend, hrest, List.map_cons]
      · rw [hwritten', hwritten, List.map_cons, List.flatten_cons, List.append_assoc]

/-- A writer that is flushed on such a device leaves a line for each event behind what its file held. -/
theorem flush_appendAll (htakes : writer.file.Takes) (hpending : writer.file.pending = [])
    (events : List Event) :
    ∃ written closed, writer.appendAll events = (events.map fun event => .ok (logLine event).length, written) ∧
      written.flush = (.ok (), closed) ∧ closed.place = writer.place ∧
      closed.file.content = writer.file.content ++ (events.map logLine).flatten := by
  obtain ⟨written, happend, htakes', hplace, hwritten⟩ := appendAll_of_takes htakes events
  obtain ⟨closed, hflush, hplace', hcontent⟩ := flush_of_takes htakes'
  refine ⟨written, closed, happend, hflush, hplace'.trans hplace, ?_⟩
  rw [hcontent, hwritten, AppendFile.written, hpending, List.append_nil]

/-- Events in the order of their times, with payloads in one line, are appended to a fresh segment. All
are appended, and the sizes that are told sum up to that of the file. A reader of this one segment,
through the path of the writer or in any other way, hands out the events with their payloads as they are
embedded, and counts no other line: the payload without the blanks around it, if it is JSON, and otherwise
its text as a JSON string. Appended to any other fresh segment, these events make the same file. -/
theorem round_trip {files files₁ : FileTree} {path : String} (hfiles : files.WellFormed)
    (hopen : ofPath files path = .ok (writer, files₁)) (hfresh : writer.file.content = [])
    {events : List Event} (htimes : ∀ event ∈ events, Millis.InRange event.timestamp)
    (hordered : events.Pairwise fun a b => a.timestamp ≤ b.timestamp)
    (hlines : ∀ event ∈ events, event.InOneLine) :
    ∃ (sizes : List Nat) (written closed : LogWriter),
      writer.appendAll events = (sizes.map .ok, written) ∧
      written.flush = (.ok (), closed) ∧
      sizes.sum = closed.file.content.length ∧
      let files₂ := closed.store files₁
      let back := events.map Event.embedded
      LogReader.Drains files₂ path "" back ⟨1, events.length, 0, 0⟩ ∧
      (∀ (tree : FileTree) (root start segment : String), listSegments tree root start = .ok [segment] →
        tree.read segment = files₂.read path →
        LogReader.Drains tree root start back ⟨1, events.length, 0, 0⟩) ∧
      (∀ event ∈ events,
        ((Json.rawValue? event.payload).isSome → event.embedded.payload = Json.trimmed event.payload) ∧
        (Json.rawValue? event.payload = none →
          event.embedded.payload = Json.quoted (Utf8.decodeLossy event.payload))) ∧
      ∀ (tree tree₁ : FileTree) (path' : String) (other : LogWriter),
        ofPath tree path' = .ok (other, tree₁) → other.file.content = [] →
        ∃ again, other.appendAll back = (sizes.map .ok, again) ∧
          ∃ copied, again.flush = (.ok (), copied) ∧ copied.file.content = closed.file.content := by
  obtain ⟨-, htakes, hpending⟩ := ofPath_eq_ok hopen
  obtain ⟨written, closed, happend, hflush, hplace, hcontent⟩ := flush_appendAll htakes hpending events
  rw [hfresh, List.nil_append] at hcontent
  obtain ⟨hlist, hread⟩ := found_of_ofPath hfiles hopen hplace
  have hdrains : ∀ {tree : FileTree} {root start segment : String},
      listSegments tree root start = .ok [segment] → tree.read segment = .ok closed.file.content →
      LogReader.Drains tree root start (events.map Event.embedded) ⟨1, events.length, 0, 0⟩ := by
    intro tree root start segment hlist hread
    have h := LogReader.drains_segment hlist hread
    obtain ⟨hwritten, hrecords⟩ := records_logLines htimes
    have hkept : keepOrdered none (events.map Event.embedded) = events.map Event.embedded :=
      keepOrdered_of_ordered (by simp) (List.pairwise_map.mpr hordered)
    rw [hcontent, lines_logLines hlines, hwritten, hrecords] at h
    dsimp only at h
    rw [hkept] at h
    simpa using h
  refine ⟨events.map fun event => (logLine event).length, written, closed, ?_, hflush, ?_,
    hdrains hlist hread, ?_, fun event _ => embed_eq event.payload, ?_⟩
  · rw [happend, List.map_map]
    rfl
  · rw [hcontent, List.length_flatten, List.map_map]
    rfl
  · intro tree root start segment hlist' hsame
    exact hdrains hlist' (hsame.trans hread)
  · intro tree tree₁ path' other hopen' hfresh'
    obtain ⟨-, htakes', hpending'⟩ := ofPath_eq_ok hopen'
    obtain ⟨again, copied, happend', hflush', -, hcontent'⟩ :=
      flush_appendAll htakes' hpending' (events.map Event.embedded)
    have hsame : (events.map Event.embedded).map logLine = events.map logLine := by
      rw [List.map_map]
      exact List.map_congr_left fun event _ => logLine_embedded event
    refine ⟨again, ?_, copied, hflush', ?_⟩
    · rw [happend', List.map_map, List.map_map]
      refine congrArg (Prod.mk · again) (List.map_congr_left fun event _ => ?_)
      rw [Function.comp_apply, Function.comp_apply, logLine_embedded]
    · rw [hcontent', hsame, hfresh', List.nil_append, hcontent]

/-- Two events at the same time, one with blanks around its payload and one with a payload that is no
JSON, in a segment at the top. -/
theorem round_trip_two_events :
    let events : List Event := [⟨5, "k", Bytes.ofAscii " 7 "⟩, ⟨5, "", Bytes.ofAscii "x"⟩]
    ∃ (writer written closed : LogWriter) (files : FileTree) (sizes : List Nat),
      ofPath {} "day.json" = .ok (writer, files) ∧
      writer.appendAll events = (sizes.map .ok, written) ∧ written.flush = (.ok (), closed) ∧
      LogReader.Drains (closed.store files) "day.json" ""
        [⟨5, "k", Bytes.ofAscii "7"⟩, ⟨5, "", Bytes.ofAscii "\"x\""⟩] ⟨1, 2, 0, 0⟩ := by
  intro events
  have hsplit : "day.json".splitOn "/" = ["day.json"] := by
    rw [Path.splitOn_slash]
    decide +kernel
  have hopen : ofPath {} "day.json" = .ok (⟨"day.json", ["day.json"], { content := [] }, 0⟩,
      ({} : FileTree).write ["day.json"] []) := by
    have hparts : Path.parts "day.json" = ["day.json"] := by
      rw [Path.parts, hsplit]
      decide
    have hparent : FileTree.parent? "day.json" = none := by
      rw [FileTree.parent?, hsplit]
      decide
    have horigin : FileTree.origin {} "day.json" = [] := by decide +kernel
    have hfile : Path.namesDirectory "day.json" = false := by decide +kernel
    simp [ofPath, FileTree.openAppendIn, hparent, FileTree.openAppend, FileTree.resolve, hparts, horigin,
      FileTree.walk, FileTree.kind?, FileTree.file?, hfile, FileTree.write]
  have hone : ∀ event ∈ events, Bytes.lineFeed ∉ event.payload := by decide
  have hlines : ∀ event ∈ events, event.InOneLine := fun event hevent text htext hmem =>
    hone event hevent (Json.mem_of_rawValue? htext hmem)
  obtain ⟨sizes, written, closed, happend, hflush, -, hdrains, -⟩ :=
    round_trip ⟨by simp, by simp, by simp⟩ hopen rfl (by decide) (by decide) hlines
  have hback : events.map Event.embedded =
      [⟨5, "k", Bytes.ofAscii "7"⟩, ⟨5, "", Bytes.ofAscii "\"x\""⟩] := by
    have hnumber : Json.readLexeme (Bytes.ofAscii " 7 ") = some (⟨Bytes.ofAscii " ", Bytes.ofAscii "7",
        .number ⟨false, Bytes.ofAscii "7", none, none⟩⟩, Bytes.ofAscii " ") := by
      decide +kernel
    have hword : Json.readLexeme (Bytes.ofAscii "x") =
        some (⟨[], Bytes.ofAscii "x", .badScalar .malformed⟩, []) := by
      decide +kernel
    have hlex : Json.lex (Bytes.ofAscii " 7 ") = [⟨Bytes.ofAscii " ", Bytes.ofAscii "7",
        .number ⟨false, Bytes.ofAscii "7", none, none⟩⟩] := by
      rw [Json.lex_cons hnumber, Json.lex_nil (by decide)]
    have hlex' : Json.lex (Bytes.ofAscii "x") = [⟨[], Bytes.ofAscii "x", .badScalar .malformed⟩] := by
      rw [Json.lex_cons hword, Json.lex_empty]
    simp only [events, List.map_cons, List.map_nil, Event.embedded, embed, Json.rawValue?, hlex, hlex']
    decide +kernel
  exact ⟨_, written, closed, _, sizes, hopen, happend, hflush, hback ▸ hdrains⟩

end LogWriter

end EventReplay
