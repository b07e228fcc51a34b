import EventReplay.Proofs.LogRoundTrip
import EventReplay.Proofs.StandingFiles
import EventReplay.Proofs.StreamProtocol
import EventReplay.Proofs.WrittenLines

/-!
# Files that are opened again

A writer goes on behind the last byte of a file. A segment or a shard whose last line was never ended can be
read all the same, but what is appended to it then becomes a part of that line. So it is this last line that
decides whether a file that is opened again keeps what it held and gives what is appended
(`reopened_keeps_iff`).
-/

set_option autoImplicit false

namespace EventReplay

/-! ## Segments -/

/-- A log line behind the beginning of another is read as the event if that is blank, and is otherwise
malformed. -/
theorem logRecords_behind {event : Event} (ht : Millis.InRange event.timestamp) (q : Bytes) :
    logRecords [q ++ logLine event] = if q.all Json.isGap then [event.embedded] else [] := by
  have hbrace : ascii '\x7b' ∈ q ++ logLine event := List.mem_append_right _ (List.mem_of_head? rfl)
  have hfull : writtenLines [q ++ logLine event] = [q ++ logLine event] :=
    List.filter_eq_self.mpr fun line hline => by
      rw [List.mem_singleton.mp hline, Bool.not_eq_true']
      exact seesBraces_log _ (.inl hbrace)
  rw [logRecords, hfull]
  split
  next hgap =>
    have hread := (readLogLine_gap (List.all_eq_true.mp hgap) (logLine event)).trans (readLogLine_logLine ht)
    rw [List.filterMap_cons, hread]
    rfl
  next hgap =>
    cases hread : readLogLine (q ++ logLine event) with
    | ok found => exact absurd (List.all_eq_true.mpr (blank_of_readLogLine ht hread)) hgap
    | error fault =>
        rw [List.filterMap_cons, hread]
        rfl

/-- The beginning of a line that is blank holds no record. -/
theorem logRecords_openEnd {q : Bytes} (hfeed : Bytes.lineFeed ∉ q) (hgap : ∀ b ∈ q, Json.isGap b = true) :
    logRecords (Bytes.lines q) = [] := by
  by_cases hq : q = []
  · rw [hq]
    rfl
  · rw [Bytes.lines_of_notMem hfeed hq]
    have hnone : writtenLines [q] = [] := by
      have hall : q.all Bytes.isAsciiBlank = true := by
        rw [List.all_eq_true]
        exact fun b hb => isAsciiBlank_of_isGap (hgap b hb)
      simp [writtenLines, hall]
    rw [logRecords, hnone]
    rfl

theorem le_lastTime {old : List Event} {event : Event}
    (h : ∀ last ∈ old.getLast?, last.timestamp ≤ event.timestamp) :
    ∀ t ∈ lastTime none old, t ≤ event.timestamp := by
  intro t ht
  rcases List.eq_nil_or_concat old with rfl | ⟨front, last, rfl⟩
  · simp [lastTime] at ht
  · rw [List.concat_eq_append] at h ht
    obtain rfl : last.timestamp = t := by simpa [lastTime] using ht
    exact h last (by simp)

/-- A segment that is appended to gives its events and the new one if its last line was ended, or was no
more than blanks, and otherwise only the events of the lines that were ended. -/
theorem keepOrdered_logLine {content : Bytes} {event : Event} (ht : Millis.InRange event.timestamp)
    (hline : event.InOneLine) :
    let old := keepOrdered none (logRecords (Bytes.lines content))
    (∀ last ∈ old.getLast?, last.timestamp ≤ event.timestamp) →
    keepOrdered none (logRecords (Bytes.lines (content ++ logLine event))) =
      if (Bytes.openEnd content).all Json.isGap then old ++ [event.embedded]
      else keepOrdered none (logRecords (Bytes.lines (Bytes.ended content))) := by
  intro old hlast
  have hlines := Bytes.lines_ended_append content
  have hfeed := Bytes.lineFeed_notMem_openEnd content
  have hcut := Bytes.ended_append_openEnd content
  generalize Bytes.openEnd content = q at hcut hfeed ⊢
  generalize Bytes.ended content = ended at hcut hlines ⊢
  have hnew : Bytes.lines (q ++ logLine event) = [q ++ logLine event] := by
    have hone : q ++ logLine event = (q ++ logText event) ++ [Bytes.lineFeed] := by
      rw [logLine_eq, List.append_assoc]
    rw [hone, Bytes.lines_append (by simp [hfeed, (lineFeed_notMem_logText_iff event).mpr hline])]
    rfl
  have hold : old = keepOrdered none (logRecords (Bytes.lines ended) ++ logRecords (Bytes.lines q)) := by
    rw [← logRecords_append, ← hlines, hcut]
  rw [← hcut, List.append_assoc, hlines, hnew, logRecords_append, logRecords_behind ht]
  split
  next hgap =>
    rw [logRecords_openEnd hfeed (List.all_eq_true.mp hgap), List.append_nil] at hold
    rw [keepOrdered_append, ← hold, keepOrdered_of_ordered _ (List.pairwise_singleton _ _)]
    intro t htime event' hevent'
    rw [List.mem_singleton.mp hevent']
    exact le_lastTime hlast t htime
  next hgap => rw [List.append_nil]

namespace LogWriter

variable {files : FileTree} {path : String} {content : Bytes}

/-- A segment that is there is opened as it is. -/
theorem ofPath_of_read (hread : files.read path = .ok content) :
    ∃ place, files.resolve path = .ok (place, some (.file content)) ∧
      ofPath files path = .ok (⟨path, place, { content }, 0⟩, files) := by
  obtain ⟨place, hresolve⟩ := FileTree.resolve_of_read hread
  refine ⟨place, hresolve, ?_⟩
  rw [ofPath, FileTree.openAppendIn_of_resolve hresolve]
  dsimp only
  rw [FileTree.file?_of_kind? (FileTree.resolve_ok hresolve).2.2, Option.getD_some]

/-- What a reader hands out of a segment that is there. -/
theorem drains_of_read (hfiles : files.WellFormed) (hread : files.read path = .ok content) :
    ∃ counts, LogReader.Drains files path "" (keepOrdered none (logRecords (Bytes.lines content))) counts := by
  obtain ⟨place, hresolve⟩ := FileTree.resolve_of_read hread
  have hlist : listSegments files path "" = .ok [path] := by
    rw [listSegments_eq hresolve, FileTree.segmentsBelow_file hfiles
      (FileTree.file?_of_kind? (FileTree.resolve_ok hresolve).2.2)]
    rfl
  exact ⟨_, LogReader.drains_segment hlist hread⟩

/-- An event is appended to a segment that is there. A reader of the segment hands out what it handed out
before and then the event if the last line of the segment was ended, or was no more than blanks. Otherwise it
hands out neither the event nor what stood in that line. -/
theorem reopened (hfiles : files.WellFormed) (hread : files.read path = .ok content) {old : List Event}
    {counts : LogCounts} (hold : LogReader.Drains files path "" old counts) {event : Event}
    (ht : Millis.InRange event.timestamp) (hline : event.InOneLine)
    (hlast : ∀ last ∈ old.getLast?, last.timestamp ≤ event.timestamp) :
    ∃ writer written closed kept counts', ofPath files path = .ok (writer, files) ∧
      writer.append event = (.ok (logLine event).length, written) ∧ written.flush = (.ok (), closed) ∧
      LogReader.Drains (closed.store files) path "" kept counts' ∧
      kept = if (Bytes.openEnd content).all Json.isGap then old ++ [event.embedded]
        else keepOrdered none (logRecords (Bytes.lines (Bytes.ended content))) := by
  obtain ⟨place, hresolve, hopen⟩ := ofPath_of_read hread
  let writer : LogWriter := ⟨path, place, { content }, 0⟩
  have htakes : writer.file.Takes := ⟨rfl, rfl⟩
  obtain ⟨written, happend, htakes', hplace, hwritten⟩ := append_of_takes htakes event
  obtain ⟨closed, hflush, hplace', hcontent⟩ := flush_of_takes htakes'
  replace hcontent : closed.file.content = content ++ logLine event := by
    rw [hcontent, hwritten, AppendFile.written, List.append_nil]
  obtain ⟨counts', hdrains⟩ := drains_of_read hfiles hread
  obtain ⟨rfl, -⟩ := hdrains.unique hold
  obtain ⟨hlist', hread'⟩ := found_of_ofPath hfiles hopen (hplace'.trans hplace)
  have hkept := LogReader.drains_segment hlist' hread'
  rw [hcontent] at hkept
  exact ⟨writer, written, closed, _, _, hopen, happend, hflush, hkept, keepOrdered_logLine ht hline hlast⟩

end LogWriter

/-! ## Shards -/

namespace FileStream

open ShardWriter

variable {options : StreamOptions} {root stream : String} {files files₁ : FileTree} {content : Bytes}

/-- One record is in one line. -/
theorem lines_eq_singleton {lines : List (List (Nat × Bytes))} {record : Nat × Bytes}
    (h : lines.flatten = [record]) (hsizes : ∀ line ∈ lines, 1 ≤ line.length) : lines = [[record]] := by
  cases lines with
  | nil => simp at h
  | cons line lines =>
      rw [List.forall_mem_cons] at hsizes
      obtain ⟨first, rest, rfl⟩ := List.exists_cons_of_length_pos hsizes.1
      rw [List.flatten_cons, List.cons_append, List.cons.injEq, List.append_eq_nil_iff] at h
      obtain ⟨rfl, rfl, hnone⟩ := h
      cases lines with
      | nil => rfl
      | cons line' lines =>
          rw [List.flatten_cons, List.append_eq_nil_iff] at hnone
          have hsize := hsizes.2 line' List.mem_cons_self
          simp [hnone.1] at hsize

/-- Some content is what a shard held and a record behind it: it is read as the records of both just if
nothing but blanks stood behind the last line feed of the shard, and the record does not nest too deep to
stand in an array, where the stream is one of aggregates. Otherwise it cannot be read. -/
def ReadsBehind (aggregate : Bool) (content bytes : Bytes) (old new : List Record) (kept : Bytes) : Prop :=
  ∀ found, readShard kept = .ok found ↔
    ((∀ b ∈ Bytes.openEnd content, Bytes.isAsciiBlank b = true) ∧
      (aggregate = true → Json.nesting bytes ≤ 126)) ∧ found = old ++ new

/-- The record stands in a line of its own. -/
theorem readsBehind_of_holdsLines {old new : List Record} (hold : readShard content = .ok old) {bytes : Bytes}
    (hrecord : IsRecord bytes) (hline : Bytes.lineFeed ∉ bytes) (haccepted : decodeLine bytes = .ok new)
    {kept : Bytes} {lines : List (List (Nat × Bytes))} (hlines : HoldsLines options content kept lines)
    {handle : Nat} (hone : lines.flatten = [(handle, bytes)]) :
    ReadsBehind options.aggregate content bytes old new kept := by
  obtain ⟨record, rfl, hback⟩ := hrecord.readsBack hline haccepted
  obtain rfl := lines_eq_singleton hone fun line hmem => (hlines.sizes line hmem).1
  intro found
  rw [hlines.content, laidOut, List.map_singleton, List.map_singleton, List.flatten_singleton,
    readShard_rendered_iff ⟨by simp, fun _ => rfl⟩ (.cons hback .nil) hold]
  simp

/-- A stream that is there is opened, and gets a record for one of its shards. What the shard holds once its
writer waits, and what it keeps when a flush is answered that was asked for behind the record, is what it held
before and the record behind it. The writer comes to wait if it takes the steps that it has to take. -/
theorem reopened {sink : FileStream} (hopen : ofRoot options root stream files = (.ok sink, files₁)) {n : Nat}
    {shard₀ : FileShard} (hshard₀ : sink.shards[n]? = some shard₀)
    (hread : files.read shard₀.path = .ok content) {old : List Record} (hold : readShard content = .ok old)
    {bytes : Bytes} (hrecord : IsRecord bytes) (hline : Bytes.lineFeed ∉ bytes) {new : List Record}
    (haccepted : decodeLine bytes = .ok new) {actions : List StreamAction} {handle : Nat}
    (hone : sink.recordsFor n (StreamSession.follow { sink } actions).2 = [(handle, bytes)]) :
    let start : StreamSession := { sink }
    (∀ shard, (start.follow actions).1.sink.shards[n]? = some shard → shard.writer.isWaiting = true →
      ReadsBehind options.aggregate content bytes old new shard.writer.file.content) ∧
    (∀ before after kept, actions = before ++ .call .flush :: after →
      sink.recordsFor n (start.follow before).2 = [(handle, bytes)] →
      .answered n (start.follow before).1.nextTicket (.ok ()) kept ∈ (start.follow actions).2 →
      ReadsBehind options.aggregate content bytes old new kept) ∧
    ∀ turns : List StreamAction, (∀ turn ∈ turns, turn.isTurn = true) →
      (∀ m shard, (start.follow actions).1.sink.shards[m]? = some shard →
        shard.writer.work ≤ turns.count (.write m)) →
      ∃ shard, (start.follow (actions ++ turns)).1.sink.shards[n]? = some shard ∧
        ReadsBehind options.aggregate content bytes old new shard.writer.file.content := by
  intro start
  obtain ⟨hmax, hcontents⟩ := ofRoot_eq_ok hopen
  have hmem : shard₀ ∈ sink.shards := List.mem_of_getElem? hshard₀
  have hfirst : shard₀.writer.file.content = content := hcontents shard₀ hmem content hread
  have hopened : sink.Opened options := opened_ofRoot (congrArg Prod.fst hopen)
  have htakes : shard₀.writer.file.Takes := by
    obtain ⟨first, hwriter⟩ := (FileReplay.ofRoot_ok (congrArg Prod.fst hopen)).2.2 shard₀ hmem
    rw [hwriter]
    exact ⟨rfl, rfl⟩
  have hwaits : ∀ actions shard, sink.recordsFor n (start.follow actions).2 = [(handle, bytes)] →
      (start.follow actions).1.sink.shards[n]? = some shard → shard.writer.isWaiting = true →
      ReadsBehind options.aggregate content bytes old new shard.writer.file.content := by
    intro actions shard hone hshard hwaiting
    have hruns := (StreamSession.runs_of_opened hopened).follow actions
    rw [List.nil_append] at hruns
    obtain ⟨lines, hlines, -, -, hall⟩ := hruns.holds hopened hmax hshard₀ hshard htakes
    exact readsBehind_of_holdsLines hold hrecord hline haccepted (hfirst ▸ hlines)
      ((hall hwaiting).trans hone)
  refine ⟨fun shard => hwaits actions shard hone, ?_, ?_⟩
  · rintro before after kept rfl hearlier hanswer
    obtain ⟨lines, hlines, hsent, hno⟩ :=
      StreamSession.kept_of_answered hmax hopened before after hshard₀ htakes hanswer
    rw [hearlier] at hsent
    rw [hone] at hno
    exact readsBehind_of_holdsLines hold hrecord hline haccepted (hfirst ▸ hlines)
      (hno.eq_of_length_le hsent.length_le)
  · intro turns hturns henough
    obtain ⟨hstate, hevents⟩ := start.follow_append actions turns
    have hidle : (start.follow (actions ++ turns)).1.isIdle = true := by
      rw [hstate]
      exact StreamSession.isIdle_follow hturns fun m shard hshard _ => henough m shard hshard
    have hn : n < (start.follow (actions ++ turns)).1.sink.shards.length := by
      rw [((StreamSession.runs_of_opened hopened).follow (actions ++ turns)).size]
      exact (List.getElem?_eq_some_iff.mp hshard₀).1
    refine ⟨_, List.getElem?_eq_getElem hn, hwaits (actions ++ turns) _ ?_ (List.getElem?_eq_getElem hn)
      (List.all_eq_true.mp hidle _ (List.getElem_mem hn))⟩
    rw [hevents, FileStream.recordsFor, List.filterMap_append]
    exact (congrArg _ (StreamSession.recordsFor_turns hturns sink n)).trans ((List.append_nil _).trans hone)

end FileStream

/-! ## Both -/

theorem keepOrdered_ended_isPrefix (content : Bytes) :
    keepOrdered none (logRecords (Bytes.lines (Bytes.ended content))) <+:
      keepOrdered none (logRecords (Bytes.lines content)) := by
  have hlines := Bytes.lines_ended_append content (Bytes.openEnd content)
  rw [Bytes.ended_append_openEnd] at hlines
  rw [hlines, logRecords_append, keepOrdered_append]
  exact List.prefix_append _ _

/-- When an event is appended to a segment that is opened again, a reader hands out what it handed out before
and then the event just if nothing but blanks stood behind the last line feed of the segment. Otherwise the
event is lost, and with it the event of the last line, if there was one.

When a record is handed to a shard of a stream that is opened again, the shard is read as before with the
record behind just if nothing but blanks stood behind its last line feed, and the record does not nest
too deep to stand in an array, where the stream is one of aggregates. Otherwise the shard cannot be read. So
it is with what is in the file once the writer waits, which it comes to, and with what is kept when a flush
behind the record has been answered. -/
theorem reopened_keeps_iff (files : FileTree) (content : Bytes) :
    (∀ (path : String) (old : List Event) (counts : LogCounts) (event : Event),
      files.WellFormed → files.read path = .ok content → LogReader.Drains files path "" old counts →
      Millis.InRange event.timestamp → event.InOneLine →
      (∀ last ∈ old.getLast?, last.timestamp ≤ event.timestamp) →
      ∃ writer written closed kept counts', LogWriter.ofPath files path = .ok (writer, files) ∧
        writer.append event = (.ok (logLine event).length, written) ∧ written.flush = (.ok (), closed) ∧
        LogReader.Drains (closed.store files) path "" kept counts' ∧
        (kept = old ++ [event.embedded] ↔ ∀ b ∈ Bytes.openEnd content, Json.isGap b = true) ∧
        (¬ (∀ b ∈ Bytes.openEnd content, Json.isGap b = true) →
          kept = keepOrdered none (logRecords (Bytes.lines (Bytes.ended content))))) ∧
    (∀ (options : StreamOptions) (root stream : String) (files₁ : FileTree) (sink : FileStream)
      (n : Nat) (shard₀ : FileShard) (old new : List Record) (bytes : Bytes) (actions : List StreamAction)
      (handle : Nat),
      let start : StreamSession := { sink }
      let reads := FileStream.ReadsBehind options.aggregate content bytes old new
      FileStream.ofRoot options root stream files = (.ok sink, files₁) →
      sink.shards[n]? = some shard₀ → files.read shard₀.path = .ok content → readShard content = .ok old →
      IsRecord bytes → Bytes.lineFeed ∉ bytes → decodeLine bytes = .ok new →
      sink.recordsFor n (start.follow actions).2 = [(handle, bytes)] →
      (∀ shard, (start.follow actions).1.sink.shards[n]? = some shard → shard.writer.isWaiting = true →
        reads shard.writer.file.content) ∧
      (∀ before after kept, actions = before ++ .call .flush :: after →
        sink.recordsFor n (start.follow before).2 = [(handle, bytes)] →
        .answered n (start.follow before).1.nextTicket (.ok ()) kept ∈ (start.follow actions).2 →
        reads kept) ∧
      ∀ turns : List StreamAction, (∀ turn ∈ turns, turn.isTurn = true) →
        (∀ m shard, (start.follow actions).1.sink.shards[m]? = some shard →
          shard.writer.work ≤ turns.count (.write m)) →
        ∃ shard, (start.follow (actions ++ turns)).1.sink.shards[n]? = some shard ∧
          reads shard.writer.file.content) := by
  constructor
  · intro path old counts event hfiles hread hold ht hline hlast
    obtain ⟨writer, written, closed, kept, counts', hopen, happend, hflush, hdrains, hkept⟩ :=
      LogWriter.reopened hfiles hread hold ht hline hlast
    have hlost := fun hblank => hkept.trans (if_neg (mt List.all_eq_true.mp hblank))
    refine ⟨writer, written, closed, kept, counts', hopen, happend, hflush, hdrains, ⟨fun hall => ?_,
      fun hblank => hkept.trans (if_pos (List.all_eq_true.mpr hblank))⟩, hlost⟩
    by_contra hblank
    -- the lines that were ended hold no more than what was read before
    obtain ⟨counts'', hsame⟩ := LogWriter.drains_of_read hfiles hread
    have hless := (keepOrdered_ended_isPrefix content).length_le
    rw [(hsame.unique hold).1, ← hlost hblank, hall, List.length_append,
      List.length_singleton] at hless
    omega
  · intro options root stream files₁ sink n shard₀ old new bytes actions handle start reads hopen hshard₀
      hread hold hrecord hline haccepted hone
    exact FileStream.reopened hopen hshard₀ hread hold hrecord hline haccepted hone

/-! ## A tree with a segment and a stream -/

/-- A tree with a segment at the top and a stream of one shard. -/
def standingTree (segment shard : Bytes) : FileTree where
  files := [(["day.json"], segment), (["out", "shard-0000.log"], shard)]
  directories := [["out"]]

theorem wellFormed_standingTree (segment shard : Bytes) : (standingTree segment shard).WellFormed where
  distinct := by simp [standingTree]
  above := by
    intro f hf place hplace hne
    have habove : place ∈ f.1.inits.filter (· ≠ f.1) := by simp [hplace, hne]
    simp only [standingTree, List.mem_cons, List.not_mem_nil, or_false] at hf
    rcases hf with rfl | rfl
    · have : place = [] := by simpa using habove
      rw [this]
      rfl
    · have : place = [] ∨ place = ["out"] := by simpa using habove
      rcases this with rfl | rfl <;> rfl
  names := by
    intro f hf name hname
    simp only [standingTree, List.mem_cons, List.not_mem_nil, or_false] at hf
    rcases hf with rfl | rfl
    · obtain rfl := List.mem_singleton.mp hname
      exact ⟨by decide, by decide, by decide, by decide +kernel⟩
    · rcases List.mem_cons.mp hname with rfl | hname
      · exact ⟨by decide, by decide, by decide, by decide +kernel⟩
      · obtain rfl := List.mem_singleton.mp hname
        exact ⟨by decide, by decide, by decide, by decide +kernel⟩

theorem read_standingTree (segment shard : Bytes) :
    (standingTree segment shard).read "/day.json" = .ok segment ∧
      (standingTree segment shard).read "/out/shard-0000.log" = .ok shard := by
  have hparts : Path.parts "/day.json" = ["day.json"] := by
    rw [Path.parts_eq]
    decide +kernel
  have hpartsShard : Path.parts "/out/shard-0000.log" = ["out", "shard-0000.log"] := by
    rw [Path.parts_eq]
    decide +kernel
  have horigin : ∀ path ∈ ["/day.json", "/out/shard-0000.log"],
      path.startsWith "/" = true ∧ Path.namesDirectory path = false := by decide +kernel
  simp [FileTree.read, FileTree.resolve, FileTree.origin, FileTree.walk, FileTree.kind?, FileTree.file?,
    hparts, hpartsShard, horigin, standingTree]

/-- The stream of the tree. -/
def standingStream (shard : Bytes) : FileStream :=
  ⟨"out", "/out", [{
    path := "/out/shard-0000.log"
    place := ["out", "shard-0000.log"]
    writer := { file := { content := shard }, aggregate := true, maxBatch := 100 } }]⟩

theorem ofRoot_standingTree (segment shard : Bytes) :
    FileStream.ofRoot { shards := 1, aggregate := true } "/" "out" (standingTree segment shard) =
      (.ok (standingStream shard), standingTree segment shard) := by
  have hdirectory : Path.join "/" "out" = "/out" := by decide +kernel
  have hpath : Path.join "/out" (FileStream.shardName 0) = "/out/shard-0000.log" := by
    decide +kernel
  have hparts : Path.parts "/out" = ["out"] := by
    rw [Path.parts_eq]
    decide +kernel
  have hpartsShard : Path.parts "/out/shard-0000.log" = ["out", "shard-0000.log"] := by
    rw [Path.parts_eq]
    decide +kernel
  have horigin : ∀ path ∈ ["/out", "/out/shard-0000.log"],
      path.startsWith "/" = true ∧ Path.namesDirectory path = false := by decide +kernel
  simp [FileStream.ofRoot, FileTree.makeDirectories, FileStream.openShards, FileTree.openAppend,
    FileTree.resolve, FileTree.origin, FileTree.makeBelow, FileTree.kind?, FileTree.file?,
    FileTree.walk, List.range, List.range.loop, hdirectory, hpath, hparts, hpartsShard, horigin,
    standingTree, standingStream]

/-- The line of an event, without its line feed. -/
def lastLine : Bytes := Bytes.ofAscii "\x7b\"timestamp\":100,\"partition_key\":\"a\",\"payload\":1\x7d"

/-- A segment and a shard with a line each, both ended, and one thing more for each of them. -/
theorem reopened_keeps_iff_ended_lines :
    let files := standingTree (lastLine ++ [Bytes.lineFeed]) (encodeWatermark ⟨100, 101⟩ ++ [Bytes.lineFeed])
    let sink := standingStream (encodeWatermark ⟨100, 101⟩ ++ [Bytes.lineFeed])
    let event : Event := ⟨200, "b", Bytes.ofAscii "2"⟩
    let actions : List StreamAction := [.call (.dispatch ⟨"out", .ofShard 0, encodeWatermark ⟨200, 201⟩⟩),
      .proceed 0] ++ List.replicate 6 (.write 0)
    let start : StreamSession := { sink }
    (∃ closed counts counts',
      LogReader.Drains files "/day.json" "" [⟨100, "a", Bytes.ofAscii "1"⟩] counts ∧
      LogReader.Drains (LogWriter.store closed files) "/day.json" ""
        [⟨100, "a", Bytes.ofAscii "1"⟩, event.embedded] counts') ∧
    FileStream.ofRoot { shards := 1, aggregate := true } "/" "out" files = (.ok sink, files) ∧
    ∃ shard, (start.follow actions).1.sink.shards[0]? = some shard ∧ shard.writer.isWaiting = true ∧
      readShard shard.writer.file.content = .ok [.watermark 100 101, .watermark 200 201] := by
  intro files sink event actions start
  have hfiles := wellFormed_standingTree (lastLine ++ [Bytes.lineFeed])
    (encodeWatermark ⟨100, 101⟩ ++ [Bytes.lineFeed])
  obtain ⟨hread, hreadShard⟩ := read_standingTree (lastLine ++ [Bytes.lineFeed])
    (encodeWatermark ⟨100, 101⟩ ++ [Bytes.lineFeed])
  have hopen := ofRoot_standingTree (lastLine ++ [Bytes.lineFeed])
    (encodeWatermark ⟨100, 101⟩ ++ [Bytes.lineFeed])
  constructor
  · have hrecords : logRecords (Bytes.lines (lastLine ++ [Bytes.lineFeed])) =
        [⟨100, "a", Bytes.ofAscii "1"⟩] := by decide +kernel
    obtain ⟨counts, hold⟩ := LogWriter.drains_of_read hfiles hread
    rw [hrecords] at hold
    have hline : event.InOneLine := fun text htext hmem =>
      absurd (Json.mem_of_rawValue? htext hmem) (by decide)
    obtain ⟨writer, written, closed, kept, counts', -, -, -, hdrains, hkept, -⟩ :=
      (reopened_keeps_iff files _).1 _ _ counts event hfiles hread hold (by decide) hline (by decide)
    rw [hkept.mpr (by decide +kernel)] at hdrains
    exact ⟨closed, counts, counts', hold, hdrains⟩
  · refine ⟨hopen, ?_⟩
    have hback : ReadsBack (encodeWatermark ⟨100, 101⟩) (.watermark 100 101) :=
      .watermark (by decide) (by decide)
    have hold := hback.readShard_line
    obtain ⟨shard, hshard⟩ : ∃ shard, (start.follow actions).1.sink.shards[0]? = some shard :=
      Option.isSome_iff_exists.mp (by decide +kernel)
    have hwaiting : shard.writer.isWaiting = true := by
      have hany : (start.follow actions).1.sink.shards[0]?.all fun shard => shard.writer.isWaiting := by
        decide +kernel
      rwa [hshard] at hany
    have hone : sink.recordsFor 0 (start.follow actions).2 = [(0, encodeWatermark ⟨200, 201⟩)] := by
      decide +kernel
    have haccepted : decodeLine (encodeWatermark ⟨200, 201⟩) = .ok [.watermark 200 201] :=
      decodeLine_watermark (by decide) (by decide)
    refine ⟨shard, hshard, hwaiting, ?_⟩
    obtain ⟨hkept, -, -⟩ := (reopened_keeps_iff files _).2 _ _ _ files sink 0 _ _ _ _ actions 0 hopen rfl
      hreadShard hold (.watermark (by decide) (by decide)) (lineFeed_notMem_encodeWatermark _) haccepted hone
    refine (hkept shard hshard hwaiting _).mpr ⟨⟨?_, fun _ => ?_⟩, rfl⟩
    · rw [Bytes.openEnd_concat]
      simp
    · rw [nesting_encodeWatermark]
      decide

/-- The segment holds one event, in a line that was never ended. Once another event has been appended, none
of the two is read. -/
theorem reopened_loses_event :
    let files := standingTree lastLine []
    let event : Event := ⟨200, "b", Bytes.ofAscii "2"⟩
    ∃ writer written closed counts counts',
      LogReader.Drains files "/day.json" "" [⟨100, "a", Bytes.ofAscii "1"⟩] counts ∧
      LogWriter.ofPath files "/day.json" = .ok (writer, files) ∧
      writer.append event = (.ok (logLine event).length, written) ∧ written.flush = (.ok (), closed) ∧
      LogReader.Drains (closed.store files) "/day.json" "" [] counts' := by
  intro files event
  have hfiles := wellFormed_standingTree lastLine []
  have hread := (read_standingTree lastLine []).1
  have hrecords : logRecords (Bytes.lines lastLine) = [⟨100, "a", Bytes.ofAscii "1"⟩] := by decide +kernel
  have hopen : ¬ (Bytes.openEnd lastLine).all Json.isGap = true := by decide +kernel
  have hended : Bytes.ended lastLine = [] := by decide +kernel
  obtain ⟨counts, hold⟩ := LogWriter.drains_of_read hfiles hread
  rw [hrecords] at hold
  have hline : event.InOneLine := fun text htext hmem =>
    absurd (Json.mem_of_rawValue? htext hmem) (by decide)
  obtain ⟨writer, written, closed, kept, counts', hwriter, happend, hflush, hdrains, hkept⟩ :=
    LogWriter.reopened hfiles hread hold (by decide) hline (by decide)
  rw [if_neg hopen, hended] at hkept
  obtain rfl : kept = [] := hkept
  exact ⟨writer, written, closed, counts, counts', hold, hwriter, happend, hflush, hdrains⟩

end EventReplay
