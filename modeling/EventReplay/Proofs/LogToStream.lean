import EventReplay.Proofs.LineFraming
import EventReplay.Proofs.LogReading

/-!
# From a log to a stream and back

The reader of a log takes a payload by the scanner, which limits neither nesting nor what strings and
numbers say, and the reader of a stream wants a value in its place. So the record of an event from a log is
read back just if the payload is readable (`Readable`), and a shard file of such records just if all of
them are (`read_back_iff_readable`).
-/

set_option autoImplicit false

namespace EventReplay

open Json (Value)

/-- The reader of values takes the payload, and it leaves one level of nesting for the record around it. -/
def Readable (payload : Bytes) : Prop :=
  ∃ v data depth, Value.read payload = .ok v ∧ Json.nesting payload ≤ 126 ∧ v.settle depth = some data

/-- A payload that the scanner takes is read inside a record as alone, but for one level of nesting. -/
theorem reads_data_iff {payload text : Bytes} {v : Value} (h : Json.rawValue? payload = some text) :
    Json.Reads 126 v [] .value (Json.dataLexemes payload) ↔
      Value.read payload = .ok v ∧ Json.nesting payload ≤ 126 := by
  have hdata : Json.dataLexemes payload = Json.dropGap (Json.lex payload) := by
    rw [Json.dataLexemes, h]
  rw [hdata, Json.read_eq_ok, Json.nesting]
  constructor
  · intro hreads
    have hdeep := hreads.of_dropGap.deepest_le (Nat.zero_le 126)
    refine ⟨hreads.of_dropGap.room_of_deepest 0 [] ?_, hdeep⟩
    rw [List.append_nil]
    exact Nat.le_trans hdeep (by decide)
  · rintro ⟨hreads, hdeep⟩
    refine (hreads.room_of_deepest 0 [] ?_).dropGap
    rw [List.append_nil]
    exact Nat.le_trans hdeep (by decide)

theorem decodeLine_iff_readable {t : Int} (ht : Millis.InRange t) {event : Event} {text : Bytes}
    (h : Json.rawValue? event.payload = some text) :
    (∃ records, decodeLine (encodeEvent t event) = .ok records) ↔ Readable event.payload := by
  constructor
  · rintro ⟨records, hrecords⟩
    obtain ⟨v, data, depth, hreads, hsettle, -⟩ := (decodeLine_event_eq_ok ht).mp hrecords
    obtain ⟨hread, hnests⟩ := (reads_data_iff h).mp hreads
    exact ⟨v, data, depth, hread, hnests, hsettle⟩
  · rintro ⟨v, data, depth, hread, hnests, hsettle⟩
    have hreads := (reads_data_iff h).mpr ⟨hread, hnests⟩
    exact ⟨_, (decodeLine_event_eq_ok ht).mpr ⟨v, data, depth, hreads, hsettle, rfl⟩⟩

/-! ## Events of a log -/

/-- An event among the records of lines is read from one of them. -/
theorem mem_logRecords {lines : List Bytes} {event : Event} (h : event ∈ logRecords lines) :
    ∃ line ∈ lines, readLogLine line = .ok event := by
  obtain ⟨line, hline, hread⟩ := List.mem_filterMap.mp h
  refine ⟨line, (List.mem_filter.mp hline).1, ?_⟩
  cases hevent : readLogLine line with
  | error fault => simp [hevent, Except.toOption] at hread
  | ok event' =>
      rw [hevent] at hread
      exact congrArg Except.ok (Option.some.inj hread)

/-- The payload of an event from a log is JSON in one line. -/
theorem payload_of_mem_logRecords {contents : List Bytes} {event : Event}
    (h : event ∈ logRecords (contents.flatMap Bytes.lines)) :
    Json.rawValue? event.payload = some event.payload ∧ Bytes.lineFeed ∉ event.payload := by
  obtain ⟨line, hline, hread⟩ := mem_logRecords h
  obtain ⟨content, -, hmem⟩ := List.mem_flatMap.mp hline
  obtain ⟨body, hbody, hcut⟩ := Bytes.cut_of_mem_lines hmem
  have hholds := payload_of_readLogLine hread
  exact ⟨hholds.rawValue?, hholds.lineFeed_notMem hbody hcut⟩

/-- The line that is written for an event whose payload is in one line is the one record of its log. -/
theorem logRecords_logLine {event : Event} (ht : Millis.InRange event.timestamp) (h : event.InOneLine) :
    logRecords (Bytes.lines (logLine event)) = [{ event with payload := embed event.payload }] := by
  have hline : Bytes.lines (logLine event) = [logLine event] := by
    rw [logLine_eq, Bytes.lines_append ((lineFeed_notMem_logText_iff event).mpr h)]
    rfl
  have hbrace : ascii '\x7b' ∈ logLine event := List.mem_of_head? rfl
  have hfull := seesBraces_log (logLine event) (.inl hbrace)
  have hblank : ¬ (logLine event).all Bytes.isAsciiBlank = true := by
    rw [Bool.not_eq_true]
    exact hfull
  rw [hline]
  exact (LogReader.logRecords_singleton hblank (readLogLine_logLine ht)).2

/-! ## Shard files -/

/-- Lines are read just if each of them is. -/
theorem readShardLines_iff {lines : List Bytes} :
    (∃ records, readShardLines lines = .ok records) ↔
      ∀ line ∈ lines, ∃ records, readShardLine line = .ok records := by
  induction lines with
  | nil => simp [readShardLines]
  | cons line lines ih =>
      rw [List.forall_mem_cons, ← ih, readShardLines]
      cases hline : readShardLine line with
      | error fault => simp
      | ok records =>
          cases readShardLines lines with
          | error fault => simp
          | ok more => simp

/-- A shard file with a line for each record is read just if each record is. -/
theorem readShard_iff {records : List Bytes} (hlines : ∀ bytes ∈ records, Bytes.lineFeed ∉ bytes)
    (hbraced : ∀ bytes ∈ records, bytes.Braced ∧ Utf8.IsText bytes) :
    (∃ found, readShard (records.map fun bytes => bytes ++ [Bytes.lineFeed]).flatten = .ok found) ↔
      ∀ bytes ∈ records, ∃ found, decodeLine bytes = .ok found := by
  have hcut : Bytes.lines (records.map fun bytes => bytes ++ [Bytes.lineFeed]).flatten =
      records.map fun bytes => bytes ++ [Bytes.lineFeed] := by
    apply Bytes.lines_flatten
    rw [List.forall_mem_map]
    exact fun bytes hbytes => ⟨bytes, rfl, hlines bytes hbytes⟩
  rw [readShard, hcut, readShardLines_iff, List.forall_mem_map]
  refine forall₂_congr fun bytes hbytes => ?_
  obtain ⟨hbrace, htext⟩ := hbraced bytes hbytes
  rw [readShardLine_braced hbrace htext]
  cases decodeLine bytes <;> simp

/-- The record of an event that a line of a log gives is read back just if the payload is readable, whatever
the line and the time that goes out. So a shard file that is written without failure from events of a log,
a line for each, is read just if the payloads of all of them are readable. -/
theorem read_back_iff_readable {line : Bytes} {event : Event} {t : Int} (ht : Millis.InRange t)
    (hread : readLogLine line = .ok event) :
    ((∃ records, decodeLine (encodeEvent t event) = .ok records) ↔ Readable event.payload) ∧
    ∀ (contents : List Bytes) (sent : List (Int × Event)) (writer : ShardWriter)
      (batches : List (List (Nat × Bytes))),
      (∀ e ∈ sent, Millis.InRange e.1 ∧ e.2 ∈ logRecords (contents.flatMap Bytes.lines)) →
      writer.WritesAll false batches (sent.map fun e => encodeEvent e.1 e.2) →
      ((∃ records, readShard (writer.writeBatches batches).2.content = .ok records) ↔
        ∀ e ∈ sent, Readable e.2.payload) := by
  refine ⟨decodeLine_iff_readable ht (payload_of_readLogLine hread).rawValue?,
    fun contents sent writer batches hsent hwrites => ?_⟩
  have hlines : ∀ bytes ∈ sent.map fun e => encodeEvent e.1 e.2, Bytes.lineFeed ∉ bytes := by
    rw [List.forall_mem_map]
    exact fun e he => lineFeed_notMem_encodeEvent e.1 (payload_of_mem_logRecords (hsent e he).2).2
  have hbraced : ∀ bytes ∈ sent.map fun e => encodeEvent e.1 e.2,
      bytes.Braced ∧ Utf8.IsText bytes := by
    rw [List.forall_mem_map]
    exact fun e _ => ⟨braced_encodeEvent e.1 e.2, isText_encodeEvent e.1 e.2⟩
  rw [hwrites.content, readShard_iff hlines hbraced, List.forall_mem_map]
  refine forall₂_congr fun e he => ?_
  obtain ⟨ht, hlog⟩ := hsent e he
  exact decodeLine_iff_readable ht (payload_of_mem_logRecords hlog).1

/-- An event whose payload is a number, from the line that its log has for it. -/
theorem read_back_iff_readable_number :
    let event : Event := ⟨100, "k", Bytes.ofInt 7⟩
    let writer : ShardWriter := { file := { content := [] }, aggregate := false, maxBatch := 1 }
    (∃ records, decodeLine (encodeEvent 250 event) = .ok records) ∧
      ∃ records, readShard (writer.writeBatches [[(0, encodeEvent 250 event)]]).2.content =
        .ok records := by
  intro event writer
  have hread : Value.read event.payload = .ok (.int 7) := Json.read_ofInt (by decide)
  have hembed : embed event.payload = event.payload := by
    rw [embed, Json.rawValue?_of_read hread, Json.lex_ofInt_self]
    rfl
  have hone : event.InOneLine := by
    rw [← lineFeed_notMem_embed_iff, hembed]
    decide
  have hevent : { event with payload := embed event.payload } = event := by
    rw [hembed]
  have hline : readLogLine (logLine event) = .ok event :=
    (readLogLine_logLine (by decide)).trans (congrArg Except.ok hevent)
  have hreadable : Readable event.payload := by
    refine ⟨.int 7, .int 7, 0, hread, ?_, by simp only [Value.settle]⟩
    rw [Json.nesting, Json.lex_ofInt_self]
    decide
  have hlog : ∀ e ∈ [((250 : Int), event)], Millis.InRange e.1 ∧
      e.2 ∈ logRecords ([logLine event].flatMap Bytes.lines) := by
    rw [List.forall_mem_singleton, List.flatMap_singleton, logRecords_logLine (by decide) hone, hevent]
    exact ⟨by decide, List.mem_singleton_self event⟩
  have hwrites : writer.WritesAll false [[(0, encodeEvent 250 event)]]
      ([((250 : Int), event)].map fun e => encodeEvent e.1 e.2) :=
    ⟨rfl, ⟨rfl, rfl⟩, rfl, by simp, ShardWriter.written_of_takes ⟨rfl, rfl⟩ rfl⟩
  obtain ⟨hrecord, hshard⟩ := read_back_iff_readable (t := 250) (by decide) hline
  refine ⟨hrecord.mpr hreadable, ?_⟩
  exact (hshard [logLine event] _ writer _ hlog hwrites).mpr (by simpa using hreadable)

/-- Arrays one inside the other, as deep as a text may nest that is read alone. -/
def nestedArrays : Bytes :=
  List.replicate Json.maxDepth (ascii '[') ++ List.replicate Json.maxDepth (ascii ']')

theorem lex_replicate {b : UInt8} {token : Json.Token} (h : Json.punctuation? b = some token)
    (hb : Json.isGap b = false) (n : Nat) (x : Bytes) :
    Json.lex (List.replicate n b ++ x) = List.replicate n ⟨[], [b], token⟩ ++ Json.lex x := by
  induction n with
  | zero => rfl
  | succ n ih =>
      rw [List.replicate_succ, List.replicate_succ, List.cons_append, Json.lex_punctuation h hb, ih,
        List.cons_append]

/-- A log holds an event whose payload nests that deep, and its record cannot be read back. -/
theorem not_readable_nestedArrays :
    let event : Event := ⟨100, "k", nestedArrays⟩
    readLogLine (logLine event) = .ok event ∧
      event ∈ logRecords (Bytes.lines (logLine event)) ∧
      ¬ ∃ records, decodeLine (encodeEvent 100 event) = .ok records := by
  intro event
  have hlex : Json.lex nestedArrays =
      List.replicate 127 ⟨[], [ascii '['], .openArray⟩ ++ List.replicate 127 ⟨[], [ascii ']'], .closeArray⟩ := by
    have hopens : Json.punctuation? (ascii '[') = some .openArray := by decide
    have hcloses : Json.punctuation? (ascii ']') = some .closeArray := by decide
    have hback := lex_replicate hcloses (by decide) 127 []
    rw [List.append_nil, Json.lex_empty, List.append_nil] at hback
    rw [← hback]
    exact lex_replicate hopens (by decide) 127 _
  have hraw : Json.rawValue? event.payload = some event.payload := by
    have hskip : Json.skipValue [] .value (Json.lex nestedArrays) = some (Json.lex nestedArrays, []) ∧
        Json.spell (Json.lex nestedArrays) = nestedArrays := by
      rw [hlex]
      decide +kernel
    rw [Json.rawValue?, show event.payload = nestedArrays from rfl, hskip.1]
    simp only [hskip.2]
    rw [if_pos (by decide +kernel)]
  have hembed : embed event.payload = event.payload := by
    rw [embed, hraw]
  have hone : event.InOneLine := by
    rw [← lineFeed_notMem_embed_iff, hembed]
    decide +kernel
  have hevent : { event with payload := embed event.payload } = event := by
    rw [hembed]
  refine ⟨(readLogLine_logLine (by decide)).trans (congrArg Except.ok hevent), ?_, ?_⟩
  · rw [logRecords_logLine (by decide) hone, hevent]
    exact List.mem_singleton_self event
  · rw [decodeLine_iff_readable (by decide) hraw]
    rintro ⟨v, data, depth, -, hnests, -⟩
    have hdeep : Json.nesting nestedArrays = 127 := by
      rw [Json.nesting, hlex]
      decide +kernel
    rw [show event.payload = nestedArrays from rfl, hdeep] at hnests
    exact absurd hnests (by decide)

end EventReplay
