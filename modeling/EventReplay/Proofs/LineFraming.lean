import EventReplay.Log.Writer
import EventReplay.Proofs.BatchFiles
import EventReplay.Proofs.LogLineReading

/-!
# The lines that an event takes

Everything in the record of an event is written in one line but for a payload that is JSON, which is
embedded with the line feeds between its lexemes. So an event takes one line of a shard file or of a log just
if its payload is embedded in one line (`lines_of_events`), and more lines otherwise.
-/

set_option autoImplicit false

namespace EventReplay

namespace Bytes

/-! ## Lines that are not blank -/

theorem flatten_lines (s : Bytes) : (lines s).flatten = s := by
  induction s with
  | nil => rfl
  | cons b s ih =>
      rw [lines]
      split
      · rw [List.flatten_cons, ih, List.singleton_append]
      · cases hlines : lines s with
        | nil =>
            rw [hlines] at ih
            simp [← ih]
        | cons line more =>
            rw [hlines] at ih
            simp only [List.flatten_cons, List.cons_append] at ih ⊢
            rw [ih]

/-- A line feed ends a line, whatever stands behind it. -/
theorem lines_append_lineFeed (x y : Bytes) :
    lines (x ++ lineFeed :: y) = lines (x ++ [lineFeed]) ++ lines y := by
  induction x with
  | nil => simp [lines]
  | cons b x ih =>
      rw [List.cons_append, List.cons_append, lines, lines, ih]
      split
      · rfl
      · have hne : lines (x ++ [lineFeed]) ≠ [] := fun h => by
          have hflatten := flatten_lines (x ++ [lineFeed])
          rw [h] at hflatten
          simp at hflatten
        obtain ⟨line, more, hlines⟩ := List.exists_cons_of_ne_nil hne
        rw [hlines]
        rfl

/-- The lines that a reader does not take for blank. -/
def fullLines (blank : Bytes → Bool) (content : Bytes) : List Bytes :=
  (lines content).filter fun line => !blank line

/-- A line with a curly bracket in it is not blank. -/
def SeesBraces (blank : Bytes → Bool) : Prop :=
  ∀ line, ascii '\x7b' ∈ line ∨ ascii '\x7d' ∈ line → blank line = false

variable {blank : Bytes → Bool}

theorem fullLines_append (x y : Bytes) :
    fullLines blank (x ++ [lineFeed] ++ y) = fullLines blank (x ++ [lineFeed]) ++ fullLines blank y := by
  rw [fullLines, List.append_assoc, List.singleton_append, lines_append_lineFeed, List.filter_append]
  rfl

/-- Bytes with a curly bracket in them have a line that is not blank. -/
theorem length_fullLines_pos (hblank : SeesBraces blank) {content : Bytes}
    (h : ascii '\x7b' ∈ content ∨ ascii '\x7d' ∈ content) : 0 < (fullLines blank content).length := by
  have hline : ∃ line ∈ lines content, ascii '\x7b' ∈ line ∨ ascii '\x7d' ∈ line := by
    rw [← flatten_lines content] at h
    rcases h with h | h
    · obtain ⟨line, hline, hmem⟩ := List.mem_flatten.mp h
      exact ⟨line, hline, .inl hmem⟩
    · obtain ⟨line, hline, hmem⟩ := List.mem_flatten.mp h
      exact ⟨line, hline, .inr hmem⟩
  obtain ⟨line, hline, hbraces⟩ := hline
  apply List.length_pos_of_mem (a := line)
  rw [fullLines, List.mem_filter, hblank line hbraces]
  exact ⟨hline, rfl⟩

/-- A line feed between curly brackets has one of them in front of it and one behind it. -/
theorem Braced.around_lineFeed {x y : Bytes} (h : Braced (x ++ lineFeed :: y)) :
    ascii '\x7b' ∈ x ∧ ascii '\x7d' ∈ y := by
  have hopens := h.opens
  have hcloses := h.closes
  constructor
  · cases x with
    | nil =>
        simp only [List.nil_append, List.head?_cons, Option.some.injEq] at hopens
        exact absurd hopens (by decide)
    | cons b x =>
        rw [List.cons_append, List.head?_cons, Option.some.injEq] at hopens
        exact hopens ▸ List.mem_cons_self
  · rcases List.eq_nil_or_concat y with rfl | ⟨y, b, rfl⟩
    · rw [List.getLast?_concat, Option.some.injEq] at hcloses
      exact absurd hcloses (by decide)
    · rw [List.concat_eq_append, ← List.cons_append, ← List.append_assoc, List.getLast?_concat,
        Option.some.injEq] at hcloses
      rw [hcloses, List.concat_eq_append]
      exact List.mem_concat_self

/-- Bytes between curly brackets take one line if no line feed is in them, and more otherwise. -/
theorem length_fullLines_braced (hblank : SeesBraces blank) {bytes : Bytes} (h : Braced bytes) :
    0 < (fullLines blank (bytes ++ [lineFeed])).length ∧
      ((fullLines blank (bytes ++ [lineFeed])).length = 1 ↔ lineFeed ∉ bytes) := by
  have hopens : ascii '\x7b' ∈ bytes := List.mem_of_head? h.opens
  refine ⟨length_fullLines_pos hblank (.inl (List.mem_append_left _ hopens)), ?_⟩
  constructor
  · intro hone hmem
    obtain ⟨x, y, rfl⟩ := List.append_of_mem hmem
    obtain ⟨hfront, hback⟩ := h.around_lineFeed
    have hcut : x ++ lineFeed :: y ++ [lineFeed] = x ++ [lineFeed] ++ (y ++ [lineFeed]) := by
      simp only [List.append_assoc, List.cons_append, List.nil_append]
    have hbefore : 0 < (fullLines blank (x ++ [lineFeed])).length :=
      length_fullLines_pos hblank (.inl (List.mem_append_left _ hfront))
    have hbehind : 0 < (fullLines blank (y ++ [lineFeed])).length :=
      length_fullLines_pos hblank (.inr (List.mem_append_left _ hback))
    rw [hcut, fullLines_append, List.length_append] at hone
    omega
  · intro hno
    have hnone : lines [] = [] := rfl
    have hfull := hblank (bytes ++ [lineFeed]) (.inl (List.mem_append_left _ hopens))
    rw [fullLines, lines_append hno, hnone, List.filter_cons, hfull]
    rfl

/-- Several of them take one line each just if no line feed is in any of them, and more lines otherwise. -/
theorem length_fullLines_flatten (hblank : SeesBraces blank) {items : List Bytes}
    (h : ∀ bytes ∈ items, Braced bytes) :
    let full := fullLines blank (items.map fun bytes => bytes ++ [lineFeed]).flatten
    items.length ≤ full.length ∧ (full.length = items.length ↔ ∀ bytes ∈ items, lineFeed ∉ bytes) := by
  induction items with
  | nil => exact ⟨Nat.le_refl _, by simp [fullLines, lines]⟩
  | cons bytes items ih =>
      rw [List.forall_mem_cons] at h
      obtain ⟨hle, hiff⟩ := ih h.2
      obtain ⟨hpos, hone⟩ := length_fullLines_braced hblank h.1
      simp only [List.map_cons, List.flatten_cons, fullLines_append, List.length_append, List.length_cons,
        List.forall_mem_cons, ← hone, ← hiff]
      omega

end Bytes

open Bytes

/-! ## What readers take for blank -/

/-- A line of a log that does not count. -/
def isBlankLogLine (line : Bytes) : Bool := line.all isAsciiBlank

/-- A line of a shard file that does not count. -/
def isBlankShardLine (line : Bytes) : Bool :=
  (Utf8.decode? (chopLine line)).any fun text => text.toList.all isBlank

theorem mem_chopLine {line : Bytes} {b : UInt8} (h : b ∈ line) (hfeed : b ≠ lineFeed) (hreturn : b ≠ 0x0D) :
    b ∈ chopLine line := by
  rw [← List.mem_reverse] at h
  unfold chopLine
  split
  next c rest hreverse =>
    rw [hreverse] at h
    split
    next hc =>
      have hrest : b ∈ rest := (List.mem_cons.mp h).resolve_left fun heq => hfeed (heq.trans hc)
      split
      next d rest' =>
        split
        next hd =>
          have hrest' : b ∈ rest' := (List.mem_cons.mp hrest).resolve_left fun heq => hreturn (heq.trans hd)
          exact List.mem_reverse.mpr hrest'
        next => exact List.mem_reverse.mpr hrest
      next => simp at hrest
    next =>
      rw [← hreverse, List.mem_reverse] at h
      exact h
  next hreverse => simp [hreverse] at h

theorem seesBraces_log : SeesBraces isBlankLogLine := by
  intro line h
  rw [isBlankLogLine, List.all_eq_false]
  rcases h with h | h
  · exact ⟨_, h, by decide⟩
  · exact ⟨_, h, by decide⟩

/-- An ASCII character that is not blank is one of the text of its line. -/
theorem isBlankShardLine_of_mem {line : Bytes} {c : Char} (hascii : c.toNat < 128)
    (hblank : isBlank c = false) (hfeed : ascii c ≠ lineFeed) (hreturn : ascii c ≠ 0x0D)
    (h : ascii c ∈ line) : isBlankShardLine line = false := by
  rw [isBlankShardLine]
  cases hdecode : Utf8.decode? (chopLine line) with
  | none => rfl
  | some text =>
      have hmem := mem_chopLine h hfeed hreturn
      rw [Utf8.decode?_eq_some.mp hdecode, Utf8.encode, List.mem_flatMap] at hmem
      obtain ⟨d, hd, hbyte⟩ := hmem
      have heq : d = c := by
        by_contra hne
        exact Json.ascii_notMem_utf8EncodeChar hascii hne hbyte
      rw [Option.any_some, List.all_eq_false]
      exact ⟨d, hd, by rw [heq, hblank]; decide⟩

theorem seesBraces_shard : SeesBraces isBlankShardLine := by
  intro line h
  rcases h with h | h
  · exact isBlankShardLine_of_mem (c := '\x7b') (by decide) (by decide) (by decide) (by decide) h
  · exact isBlankShardLine_of_mem (c := '\x7d') (by decide) (by decide) (by decide) (by decide) h

/-! ## Events -/

/-- The payload is embedded in one line: it is no JSON, or JSON without line feeds. -/
def Event.InOneLine (event : Event) : Prop :=
  ∀ text, Json.rawValue? event.payload = some text → lineFeed ∉ text

theorem lineFeed_notMem_embed_iff (event : Event) : lineFeed ∉ embed event.payload ↔ event.InOneLine := by
  rw [embed, Event.InOneLine]
  cases Json.rawValue? event.payload with
  | none => simpa using Json.lineFeed_notMem_quoted (Utf8.decodeLossy event.payload)
  | some text => simp

theorem lineFeed_notMem_encodeEvent_iff (t : Int) (event : Event) :
    lineFeed ∉ encodeEvent t event ↔ event.InOneLine := by
  have hfront : lineFeed ∉ ofAscii "\x7b\"type\":\"event\",\"timestamp\":" := by decide
  have hkey : lineFeed ∉ ofAscii ",\"partition_key\":" := by decide
  have hdata : lineFeed ∉ ofAscii ",\"data\":" := by decide
  have hend : lineFeed ∉ ofAscii "\x7d" := by decide
  rw [← lineFeed_notMem_embed_iff]
  simp only [encodeEvent, List.mem_append, hfront, lineFeed_notMem_ofInt, hkey, Json.lineFeed_notMem_quoted,
    hdata, hend, false_or, or_false]

theorem lineFeed_notMem_logText_iff (event : Event) : lineFeed ∉ logText event ↔ event.InOneLine := by
  have hfront : lineFeed ∉ ofAscii "\x7b\"timestamp\":" := by decide
  have hkey : lineFeed ∉ ofAscii ",\"partition_key\":" := by decide
  have hpayload : lineFeed ∉ ofAscii ",\"payload\":" := by decide
  have hend : lineFeed ∉ ofAscii "\x7d" := by decide
  rw [← lineFeed_notMem_embed_iff]
  simp only [logText, List.mem_append, hfront, lineFeed_notMem_ofInt, hkey, Json.lineFeed_notMem_quoted,
    hpayload, hend, false_or, or_false]

/-! ## Files -/

namespace LogWriter

variable {writer writer' : LogWriter}

/-- An event that is appended stands behind all that was written before, with a line feed at the end. -/
theorem append_eq_ok {event : Event} {n : Nat} (h : writer.append event = (.ok n, writer')) :
    writer'.file.written = writer.file.written ++ (logText event ++ [lineFeed]) := by
  unfold append at h
  dsimp only at h
  split at h
  next file hwrite =>
    cases h
    rw [AppendFile.writeAll_eq_ok hwrite, logLine_eq, List.dropLast_concat]
    simp
  next => simp at h

/-- Appends event after event; gives the results and the writer. -/
def appendAll (writer : LogWriter) : List Event → List (Except FileFault Nat) × LogWriter
  | [] => ([], writer)
  | event :: events =>
    let (result, writer) := writer.append event
    let (results, writer) := writer.appendAll events
    (result :: results, writer)

theorem written_appendAll {events : List Event}
    (h : ∀ result ∈ (writer.appendAll events).1, ∃ n, result = .ok n) :
    (writer.appendAll events).2.file.written = writer.file.written ++
      ((events.map logText).map fun bytes => bytes ++ [lineFeed]).flatten := by
  induction events generalizing writer with
  | nil => simp only [appendAll, List.map_nil, List.flatten_nil, List.append_nil]
  | cons event events ih =>
      simp only [appendAll, List.forall_mem_cons] at h ⊢
      obtain ⟨⟨n, hn⟩, hrest⟩ := h
      have happend : writer.append event = (.ok n, (writer.append event).2) := Prod.ext hn rfl
      rw [ih hrest, append_eq_ok happend]
      simp only [List.map_cons, List.flatten_cons, List.append_assoc]

/-- On a device that takes all bytes every event is appended. -/
theorem appended_of_takes {events : List Event} (h : writer.file.Takes) :
    (∀ result ∈ (writer.appendAll events).1, ∃ n, result = .ok n) ∧
      (writer.appendAll events).2.file.Takes := by
  induction events generalizing writer with
  | nil => exact ⟨by simp [appendAll], h⟩
  | cons event events ih =>
      obtain ⟨file, hwrite, htakes, -⟩ :=
        AppendFile.writeAll_of_takes h [(logLine event).dropLast, [lineFeed]]
      have happend : writer.append event =
          (.ok (logLine event).length, { writer with file, appended := writer.appended + 1 }) := by
        simp only [append, hwrite]
      have hbehind : ({ writer with file, appended := writer.appended + 1 } : LogWriter).file.Takes := htakes
      simp only [appendAll, happend, List.forall_mem_cons]
      exact ⟨⟨⟨_, rfl⟩, (ih hbehind).1⟩, (ih hbehind).2⟩

theorem flush_eq_ok (h : writer.flush = (.ok (), writer')) :
    writer'.file.content = writer.file.written := by
  unfold flush at h
  generalize hflush : writer.file.flush = flushed at h
  obtain ⟨result, file⟩ := flushed
  cases h
  exact (AppendFile.flush_eq_ok hflush).2

end LogWriter

/-- The file of a writer that does not aggregate is made of the lines of its records. -/
theorem ShardWriter.WritesAll.content {writer : ShardWriter} {batches : List (List (Nat × Bytes))}
    {records : List Bytes} (h : writer.WritesAll false batches records) :
    (writer.writeBatches batches).2.content =
      (records.map fun bytes => bytes ++ [lineFeed]).flatten := by
  obtain ⟨hmode, ⟨hcontent, hpending⟩, rfl, -, hwritten⟩ := h
  rw [content_writeBatches hpending hwritten, hcontent, List.nil_append, flatten_rendered, hmode]
  rfl

/-- The record of an event and the line that is appended to a log for it are in one line just if the
payload is embedded in one line. So of events written without failure, to a shard file that is not
aggregated or to a log, a reader sees at least as many lines that are not blank, and just as many if and
only if all payloads are embedded in one line. -/
theorem lines_of_events (events : List (Int × Event)) :
    (∀ t event, lineFeed ∉ encodeEvent t event ↔ event.InOneLine) ∧
    (∀ (writer writer' : LogWriter) (event : Event) (n : Nat), writer.append event = (.ok n, writer') →
      ∃ body, writer'.file.written = writer.file.written ++ (body ++ [lineFeed]) ∧
        (lineFeed ∉ body ↔ event.InOneLine)) ∧
    (∀ (writer : ShardWriter) (batches : List (List (Nat × Bytes))),
      writer.WritesAll false batches (events.map fun e => encodeEvent e.1 e.2) →
      let full := fullLines isBlankShardLine (writer.writeBatches batches).2.content
      events.length ≤ full.length ∧ (full.length = events.length ↔ ∀ e ∈ events, e.2.InOneLine)) ∧
    ∀ writer writer' : LogWriter, writer.file.written = [] →
      (∀ result ∈ (writer.appendAll (events.map Prod.snd)).1, ∃ n, result = .ok n) →
      (writer.appendAll (events.map Prod.snd)).2.flush = (.ok (), writer') →
      let full := fullLines isBlankLogLine writer'.file.content
      events.length ≤ full.length ∧ (full.length = events.length ↔ ∀ e ∈ events, e.2.InOneLine) := by
  refine ⟨lineFeed_notMem_encodeEvent_iff, fun writer writer' event n happend => ?_,
    fun writer batches hwrites => ?_, fun writer writer' hempty hwritten hflush => ?_⟩
  · exact ⟨logText event, LogWriter.append_eq_ok happend, lineFeed_notMem_logText_iff event⟩
  · have hbraced : ∀ bytes ∈ events.map fun e => encodeEvent e.1 e.2, bytes.Braced := by
      rw [List.forall_mem_map]
      exact fun e _ => braced_encodeEvent e.1 e.2
    have hlines := length_fullLines_flatten seesBraces_shard hbraced
    rw [List.forall_mem_map, List.length_map] at hlines
    simp only [lineFeed_notMem_encodeEvent_iff] at hlines
    rw [hwrites.content]
    exact hlines
  · have hbraced : ∀ bytes ∈ (events.map Prod.snd).map logText, bytes.Braced := by
      rw [List.forall_mem_map]
      exact fun event _ => braced_logText event
    have hlines := length_fullLines_flatten seesBraces_log hbraced
    rw [List.forall_mem_map, List.length_map, List.length_map, List.forall_mem_map] at hlines
    simp only [lineFeed_notMem_logText_iff] at hlines
    rw [LogWriter.flush_eq_ok hflush, LogWriter.written_appendAll hwritten, hempty, List.nil_append]
    exact hlines

/-- An event whose payload is no JSON takes one line. -/
theorem lines_of_events_no_json :
    let event : Event := ⟨3, "k", []⟩
    let shard : ShardWriter := { file := { content := [] }, aggregate := false, maxBatch := 1 }
    let log : LogWriter := { path := "log", place := [], file := { content := [] } }
    (fullLines isBlankShardLine (shard.writeBatches [[(0, encodeEvent 5 event)]]).2.content).length = 1 ∧
      (fullLines isBlankLogLine (log.appendAll [event]).2.flush.2.file.content).length = 1 := by
  intro event shard log
  have hraw : Json.rawValue? event.payload = none := by
    rw [Json.rawValue?, show event.payload = [] from rfl, Json.lex_empty]
    rfl
  have hline : ∀ e ∈ [((5 : Int), event)], e.2.InOneLine := by
    rw [List.forall_mem_singleton]
    intro text htext
    simp [hraw] at htext
  obtain ⟨-, -, hshard, hlog⟩ := lines_of_events [(5, event)]
  have hwrites : shard.WritesAll false [[(0, encodeEvent 5 event)]] [encodeEvent 5 event] :=
    ⟨rfl, ⟨rfl, rfl⟩, rfl, by simp, ShardWriter.written_of_takes ⟨rfl, rfl⟩ rfl⟩
  have hdevice : log.file.Takes := ⟨rfl, rfl⟩
  obtain ⟨hwritten, htakes⟩ : (∀ result ∈ (log.appendAll [event]).1, ∃ n, result = .ok n) ∧
      (log.appendAll [event]).2.file.Takes := LogWriter.appended_of_takes hdevice
  have hflush : (log.appendAll [event]).2.flush = (.ok (), (log.appendAll [event]).2.flush.2) := by
    rw [LogWriter.flush, AppendFile.flush_of_takes htakes]
  exact ⟨(hshard shard _ hwrites).2.mpr hline, (hlog log _ rfl hwritten hflush).2.mpr hline⟩

/-- An array that is written in two lines makes two lines of the record and of the line of a log. -/
theorem lineFeed_mem_two_lines :
    let event : Event := ⟨1, "k", ofAscii "[1,\n2]"⟩
    lineFeed ∈ encodeEvent 1 event ∧
      (fullLines isBlankShardLine (encodeEvent 1 event ++ [lineFeed])).length = 2 ∧
      (fullLines isBlankLogLine (logLine event)).length = 2 := by
  intro event
  have htext : event.payload = ascii '[' :: (ofInt 1 ++ ascii ',' ::
      (lineFeed :: (ofInt 2 ++ [ascii ']']))) := by decide
  have hsecond : Json.readLexeme (lineFeed :: (ofInt 2 ++ [ascii ']'])) =
      some (⟨[lineFeed], ofInt 2, .number (Json.numeralOf 2)⟩, [ascii ']']) := by
    decide +kernel
  have hskip : Json.skipValue [] .value (Json.lex event.payload) = some (Json.lex event.payload, []) ∧
      Json.spell (Json.lex event.payload) = event.payload := by
    have hopens : Json.punctuation? (ascii '[') = some .openArray := by decide
    rw [htext, Json.lex_punctuation hopens (by decide),
      Json.lex_ofInt 1 (Json.stops_cons.mpr (by decide)), Json.lex_comma, Json.lex_cons hsecond,
      Record.lex_aggregateEnd]
    decide +kernel
  have hraw : Json.rawValue? event.payload = some event.payload := by
    rw [Json.rawValue?, hskip.1]
    simp only [hskip.2]
    rw [if_pos (by decide +kernel)]
  have hembed : embed event.payload = event.payload := by
    rw [embed, hraw]
  rw [logLine_eq, encodeEvent, logText, hembed]
  decide +kernel

end EventReplay
