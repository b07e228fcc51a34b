import EventReplay.Proofs.StreamProtocol
import EventReplay.Proofs.WrittenLines

/-!
# Records that were told to be written

Whatever a device refuses, a record that was told to be written stands in its file in a whole line. But it is
read only if the file can be read, and that is so just if every line that was begun is whole
(`readShard_parts_iff`): a batch that failed in the middle of a line spoils the line of the next batch, and
with it the file.
-/

set_option autoImplicit false

namespace EventReplay

open ShardWriter
open Bytes (lineFeed openEnd isAsciiBlank)

/-- The bytes of a record without line feeds that is accepted by those who read the stream. -/
def Accepted (bytes : Bytes) : Prop :=
  IsRecord bytes ∧ lineFeed ∉ bytes ∧ ∃ found, decodeLine bytes = .ok found

theorem Accepted.readsBack {bytes : Bytes} (h : Accepted bytes) : ∃ record, ReadsBack bytes record := by
  obtain ⟨hrecord, hline, found, hfound⟩ := h
  obtain ⟨record, -, hback⟩ := hrecord.readsBack hline hfound
  exact ⟨record, hback⟩

theorem ReadsBack.accepted {bytes : Bytes} {record : Record} (h : ReadsBack bytes record) : Accepted bytes :=
  ⟨h.isRecord, h.oneLine, _, h.decodes⟩

/-- The records of a text that is one. -/
def recordsIn (bytes : Bytes) : List Record := (decodeLine bytes).toOption.getD []

theorem ReadsBack.recordsIn_eq {bytes : Bytes} {record : Record} (h : ReadsBack bytes record) :
    recordsIn bytes = [record] := by
  rw [recordsIn, h.decodes]
  rfl

namespace LinePart

variable {aggregate : Bool} {first : Bytes}

/-! ## Files of parts of lines -/

/-- The parts of which something has been written. -/
def begun (ps : List LinePart) : List LinePart := ps.filter fun p => p.part ≠ []

theorem flatMap_begun (ps : List LinePart) : (begun ps).flatMap part = ps.flatMap part := by
  induction ps with
  | nil => rfl
  | cons p ps ih =>
      by_cases hp : p.part = []
      · rw [begun, List.filter_cons_of_neg (by simpa using hp), List.flatMap_cons, hp]
        exact ih
      · rw [begun, List.filter_cons_of_pos (by simpa using hp), List.flatMap_cons, List.flatMap_cons]
        exact congrArg _ ih

/-- Lines that were begun behind a first content, and that can be read: the content was ended or leaves no
more than blanks open, each line is whole, but for the line feed of the last one, and no record nests too
deep to stand in a line that is an array. -/
structure Legible (aggregate : Bool) (first : Bytes) (ps : List LinePart) : Prop where
  blank : ps ≠ [] → ∀ b ∈ openEnd first, isAsciiBlank b = true
  whole : ∀ p ∈ ps.dropLast, p.part = p.whole aggregate
  last : ∀ p ∈ ps.getLast?, p.part = p.whole aggregate ∨ p.part ++ [lineFeed] = p.whole aggregate
  nests : aggregate = true → ∀ p ∈ ps, ∀ record ∈ p.line, Json.nesting record.2 ≤ 126

/-- Every record of the line is read back alone. -/
def ReadsBackAll (p : LinePart) : Prop := ∀ record ∈ p.line, ∃ r, ReadsBack record.2 r

theorem ReadsBackAll.forall₂ {p : LinePart} (h : p.ReadsBackAll) :
    List.Forall₂ ReadsBack (p.line.map Prod.snd) (p.line.flatMap fun record => recordsIn record.2) := by
  obtain ⟨line, outcome, part⟩ := p
  rw [ReadsBackAll] at h
  dsimp only at h ⊢
  induction line with
  | nil => exact .nil
  | cons record line ih =>
      rw [List.forall_mem_cons] at h
      obtain ⟨⟨r, hr⟩, hrest⟩ := h
      rw [List.map_cons, List.flatMap_cons, hr.recordsIn_eq]
      exact .cons hr (ih hrest)

/-- The text of the line. -/
def text (p : LinePart) (aggregate : Bool) : Bytes := lineText aggregate (p.line.map Prod.snd)

theorem whole_eq {p : LinePart} (h : p.Fits aggregate) : p.whole aggregate = p.text aggregate ++ [lineFeed] :=
  rendered_of_fitLine h.line

theorem streamLine_text {p : LinePart} (h : p.Fits aggregate) (hback : p.ReadsBackAll) :
    StreamLine (p.text aggregate) :=
  streamLine_lineText h.line hback.forall₂

/-- Behind a line that was begun nothing but blanks is open just if the line was ended. -/
theorem blank_openEnd_part {p : LinePart} (h : p.Fits aggregate) (hback : p.ReadsBackAll)
    (hlast : p.part = p.whole aggregate ∨ p.part ++ [lineFeed] = p.whole aggregate) (content : Bytes) :
    (∀ b ∈ openEnd (content ++ p.part), isAsciiBlank b = true) ↔ p.part = p.whole aggregate := by
  have hline := streamLine_text h hback
  rw [whole_eq h] at hlast ⊢
  constructor
  · intro hblank
    refine hlast.resolve_right fun hopen => ?_
    have hpart : p.part = p.text aggregate := List.append_cancel_right hopen
    obtain ⟨b, hb, hbracket⟩ := hline.closes
    rw [hpart, Bytes.openEnd_append _ hline.oneLine] at hblank
    have hmem := hblank b (List.mem_append_right _ (List.mem_of_getLast? hb))
    obtain rfl | rfl := hbracket <;> exact absurd hmem (by decide)
  · intro hwhole
    rw [hwhole, ← List.append_assoc, Bytes.openEnd_concat]
    simp

theorem legible_concat {ps : List LinePart} {p : LinePart} (hfits : ∀ p ∈ ps, p.Fits aggregate)
    (hback : ∀ p ∈ ps, p.ReadsBackAll) :
    Legible aggregate first (ps ++ [p]) ↔
      Legible aggregate first ps ∧ (∀ b ∈ openEnd (first ++ ps.flatMap part), isAsciiBlank b = true) ∧
        (p.part = p.whole aggregate ∨ p.part ++ [lineFeed] = p.whole aggregate) ∧
        (aggregate = true → ∀ record ∈ p.line, Json.nesting record.2 ≤ 126) := by
  rcases List.eq_nil_or_concat ps with rfl | ⟨qs, q, rfl⟩
  · constructor
    · rintro ⟨hblank, -, hlast, hnests⟩
      refine ⟨⟨by simp, by simp, by simp, by simp⟩, ?_, hlast p rfl, fun hmode => ?_⟩
      · simpa using hblank (by simp)
      · exact hnests hmode p (by simp)
    · rintro ⟨-, hblank, hlast, hnests⟩
      refine ⟨fun _ => by simpa using hblank, by simp, ?_, fun hmode => by simpa using hnests hmode⟩
      rintro p' ⟨rfl⟩
      exact hlast
  · rw [List.concat_eq_append] at hfits hback ⊢
    have hq := blank_openEnd_part (hfits q (by simp)) (hback q (by simp))
    rw [List.flatMap_append, List.flatMap_singleton, ← List.append_assoc first]
    constructor
    · rintro ⟨hblank, hwhole, hlast, hnests⟩
      rw [List.dropLast_concat, List.forall_mem_append] at hwhole
      have hwholeq := hwhole.2 q (List.mem_singleton_self q)
      refine ⟨⟨fun _ => hblank (by simp), ?_, ?_, fun hmode p' hp' => ?_⟩, (hq (.inl hwholeq) _).mpr hwholeq,
        hlast p (by simp), fun hmode => hnests hmode p (by simp)⟩
      · rw [List.dropLast_concat]
        exact hwhole.1
      · intro q' hq'
        obtain rfl : q = q' := by simpa using hq'
        exact .inl hwholeq
      · exact hnests hmode p' (List.mem_append_left _ hp')
    · rintro ⟨⟨hblank, hwhole, hlastq, hnests⟩, hopen, hlast, hnestsp⟩
      rw [List.dropLast_concat] at hwhole
      have hwholeq := (hq (hlastq q (by simp)) _).mp hopen
      refine ⟨fun _ => hblank (by simp), ?_, ?_, fun hmode => ?_⟩
      · rw [List.dropLast_concat, List.forall_mem_append]
        exact ⟨hwhole, by simpa using hwholeq⟩
      · intro p' hp'
        obtain rfl : p = p' := by simpa using hp'
        exact hlast
      · rw [List.forall_mem_append]
        exact ⟨hnests hmode, by simpa using hnestsp hmode⟩

/-- Parts of lines behind a first content are read just if that could be read, and they can be read behind it.
Then their records come behind those of the content. -/
theorem readShard_begun {ps : List LinePart} (hne : ∀ p ∈ ps, p.part ≠ [])
    (hfits : ∀ p ∈ ps, p.Fits aggregate) (hback : ∀ p ∈ ps, p.ReadsBackAll) {found : List Record} :
    readShard (first ++ ps.flatMap part) = .ok found ↔
      ∃ old, readShard first = .ok old ∧ Legible aggregate first ps ∧
        found = old ++ (ps.flatMap line).flatMap fun record => recordsIn record.2 := by
  induction ps using List.reverseRecOn generalizing found with
  | nil =>
      have hnone : Legible aggregate first [] := ⟨by simp, by simp, by simp, by simp⟩
      simp [hnone]
  | append_singleton ps p ih =>
      rw [List.forall_mem_append, List.forall_mem_singleton] at hne hfits hback
      have hbegins := hfits.2.begins
      rw [whole_eq hfits.2] at hbegins
      rw [List.flatMap_append, List.flatMap_singleton, ← List.append_assoc,
        (streamLine_text hfits.2 hback.2).readShard_part hbegins hne.2, legible_concat hfits.1 hback.1,
        whole_eq hfits.2, text]
      have hrecords : (ps ++ [p]).flatMap line = ps.flatMap line ++ p.line := by
        rw [List.flatMap_append, List.flatMap_singleton]
      rw [hrecords, List.flatMap_append]
      simp only [ih hne.1 hfits.1 hback.1, decodeLine_lineText_iff hfits.2.line hback.2.forall₂,
        List.forall_mem_map, List.append_left_inj]
      constructor
      · rintro ⟨_, _, ⟨old, hold, hlegible, rfl⟩, ⟨hnests, rfl⟩, rfl, hblank, hlast⟩
        exact ⟨old, hold, ⟨hlegible, hblank, hlast, hnests⟩, List.append_assoc ..⟩
      · rintro ⟨old, hold, ⟨hlegible, hblank, hlast, hnests⟩, rfl⟩
        exact ⟨_, _, ⟨old, hold, hlegible, rfl⟩, ⟨hnests, rfl⟩, (List.append_assoc ..).symm, hblank, hlast⟩

/-- A file of parts of lines is read just if the lines that were begun can be read. -/
theorem readShard_parts_iff {ps : List LinePart} (hfits : ∀ p ∈ ps, p.Fits aggregate)
    (hback : ∀ p ∈ ps, p.ReadsBackAll) {found : List Record} :
    readShard (first ++ ps.flatMap part) = .ok found ↔
      ∃ old, readShard first = .ok old ∧ Legible aggregate first (begun ps) ∧
        found = old ++ ((begun ps).flatMap line).flatMap fun record => recordsIn record.2 := by
  have hmem : ∀ p ∈ begun ps, p ∈ ps ∧ p.part ≠ [] := fun p hp => by simpa [begun] using hp
  rw [← flatMap_begun]
  exact readShard_begun (fun p hp => (hmem p hp).2) (fun p hp => hfits p (hmem p hp).1)
    fun p hp => hback p (hmem p hp).1

end LinePart

/-! ## The shards of a stream -/

namespace StreamSession

open LinePart

variable {sink₀ : FileStream} {s : StreamSession} {events : List StreamEvent} {n : Nat}
  {shard₀ shard : FileShard}

/-- The file of a shard is made of parts of lines behind what it held first, whatever its device refuses. -/
theorem Runs.parts (h : Runs sink₀ s events) (hshard₀ : sink₀.shards[n]? = some shard₀)
    (hshard : s.sink.shards[n]? = some shard) :
    ∃ ps : List LinePart, (∀ p ∈ ps, p.Fits shard₀.writer.aggregate) ∧
      shard.writer.file.content = shard₀.writer.file.content ++ ps.flatMap part ∧
      sink₀.recordsFor n events = ps.flatMap line ++ (shard.writer.phase.batch ++ recordsOf shard.writer.queue) ∧
      ps.flatMap told = (logOf sink₀.stream sink₀.shards.length n events).told ++ shard.writer.phase.toTell := by
  have htended := h.tended n shard₀ shard hshard₀ hshard
  obtain ⟨settled, unsettled, hleaves⟩ := htended.leaves
  obtain ⟨rest, hcontent, hrest⟩ := hleaves.content
  have hfits := hleaves.fits
  rw [List.forall_mem_append, htended.aggregate] at hfits
  obtain ⟨qs, hcut, hbytes⟩ := exists_cut ⟨_, hrest⟩
  obtain ⟨hline, htold⟩ := flatMap_cut hcut
  have hrecords := hleaves.records
  have htells := hleaves.told
  rw [List.flatMap_append, ← hline] at hrecords
  rw [List.flatMap_append, ← htold] at htells
  refine ⟨settled ++ qs, ?_, ?_, ?_, ?_⟩
  · rw [List.forall_mem_append]
    refine ⟨hfits.1, fun q hq => ?_⟩
    obtain ⟨p, hp, hqp⟩ := mem_cut hcut q hq
    exact (hfits.2 p hp).cut hqp (hqp.outcome ▸ hleaves.failed p hp)
  · rw [hcontent, List.flatMap_append, hbytes, List.append_assoc]
  · rw [FileStream.recordsFor, ← recordsOf_logOf, hrecords, List.flatMap_append]
  · rw [List.flatMap_append]
    exact htells

/-- A record that was told to be written is in a whole line. -/
theorem Runs.line_of_written (h : Runs sink₀ s events) (hshard : s.sink.shards[n]? = some shard)
    {ps : List LinePart} {aggregate : Bool} (hfits : ∀ p ∈ ps, p.Fits aggregate)
    (hrecords : sink₀.recordsFor n events =
      ps.flatMap line ++ (shard.writer.phase.batch ++ recordsOf shard.writer.queue))
    (htells : ps.flatMap told =
      (logOf sink₀.stream sink₀.shards.length n events).told ++ shard.writer.phase.toTell)
    {record : Nat × Bytes} (hrecord : record ∈ sink₀.recordsFor n events)
    (htold : (record.1, .written) ∈ events.filterMap StreamEvent.outcome?) :
    ∃ p ∈ begun ps, record ∈ p.line ∧ p.part = p.whole aggregate := by
  have hlogged := List.mem_append_left shard.writer.phase.toTell (h.told_by hshard hrecord htold)
  rw [← htells, List.mem_flatMap] at hlogged
  obtain ⟨p, hp, hmem⟩ := hlogged
  obtain ⟨record', hrecord', hsame⟩ := List.mem_map.mp hmem
  obtain ⟨hhandle, hwritten⟩ := Prod.mk.inj hsame
  have hsent : record' ∈ sink₀.recordsFor n events := by
    rw [hrecords]
    exact List.mem_append_left _ (List.mem_flatMap.mpr ⟨p, hp, hrecord'⟩)
  obtain rfl : record' = record := List.inj_on_of_nodup_map (h.nodup_records hshard) hsent hrecord hhandle
  have hwhole := (hfits p hp).whole hwritten
  refine ⟨p, ?_, hrecord', hwhole⟩
  have hne : p.part ≠ [] := by
    rw [hwhole, whole_eq (hfits p hp)]
    simp
  simp [begun, hp, hne]

/-- Whatever is called for, however the writers take their turns, and whatever the device of a shard refuses,
the file of the shard is made of parts of lines, and the records that were told to be written stand there in
whole lines. The file can be read just if what it held first can be read and the lines that were begun behind
that can. So all records that were told to be written are read just if there are none or this is so. -/
theorem acknowledged_read_iff {options : StreamOptions} {sink : FileStream} (hopened : sink.Opened options)
    (actions : List StreamAction) {n : Nat} {shard₀ shard : FileShard} (hshard₀ : sink.shards[n]? = some shard₀)
    (hshard : (StreamSession.follow { sink } actions).1.sink.shards[n]? = some shard)
    (hrecords : ∀ record ∈ sink.recordsFor n (StreamSession.follow { sink } actions).2, Accepted record.2) :
    let events := (StreamSession.follow { sink } actions).2
    let told := events.filterMap StreamEvent.outcome?
    let first := shard₀.writer.file.content
    let content := shard.writer.file.content
    ∃ ps : List LinePart,
      (∀ p ∈ ps, p.Fits options.aggregate) ∧ content = first ++ ps.flatMap part ∧
      ps.flatMap line <+: sink.recordsFor n events ∧
      (shard.writer.isWaiting = true → ps.flatMap line = sink.recordsFor n events) ∧
      (∀ record ∈ sink.recordsFor n events, (record.1, .written) ∈ told →
        ∃ p ∈ begun ps, record ∈ p.line ∧ p.part = p.whole options.aggregate) ∧
      (∀ found, readShard content = .ok found ↔
        ∃ old, readShard first = .ok old ∧ Legible options.aggregate first (begun ps) ∧
          found = old ++ ((begun ps).flatMap line).flatMap fun record => recordsIn record.2) ∧
      ((∀ record ∈ sink.recordsFor n events, (record.1, .written) ∈ told →
          ∃ found, readShard content = .ok found ∧ ∃ r ∈ found, decodeLine record.2 = .ok [r]) ↔
        (∀ record ∈ sink.recordsFor n events, (record.1, .written) ∉ told) ∨
          (∃ old, readShard first = .ok old) ∧ Legible options.aggregate first (begun ps)) := by
  intro events told first content
  have hruns : Runs sink (StreamSession.follow { sink } actions).1 events :=
    (runs_of_opened hopened).follow actions
  obtain ⟨ps, hfits, hcontent, hsent, htells⟩ := hruns.parts hshard₀ hshard
  rw [hopened.aggregate shard₀ (List.mem_of_getElem? hshard₀)] at hfits
  have hback : ∀ p ∈ ps, p.ReadsBackAll := by
    intro p hp record hrecord
    have hmem : record ∈ sink.recordsFor n events := by
      rw [hsent]
      exact List.mem_append_left _ (List.mem_flatMap.mpr ⟨p, hp, hrecord⟩)
    exact (hrecords record hmem).readsBack
  have hread : ∀ found, readShard content = .ok found ↔
      ∃ old, readShard first = .ok old ∧ Legible options.aggregate first (begun ps) ∧
        found = old ++ ((begun ps).flatMap line).flatMap fun record => recordsIn record.2 := by
    intro found
    rw [show content = first ++ ps.flatMap part from hcontent]
    exact readShard_parts_iff hfits hback
  have hwritten : ∀ record ∈ sink.recordsFor n events, (record.1, .written) ∈ told →
      ∃ p ∈ begun ps, record ∈ p.line ∧ p.part = p.whole options.aggregate := fun record hrecord htold =>
    hruns.line_of_written hshard hfits hsent htells hrecord htold
  refine ⟨ps, hfits, hcontent, ?_, fun hwaiting => ?_, hwritten, hread, ?_⟩
  · rw [hsent]
    exact List.prefix_append _ _
  · obtain ⟨done, batches, hcarries⟩ := hruns.carries hshard
    obtain ⟨-, hleft⟩ := List.append_eq_nil_iff.mp (awaited_of_isWaiting hwaiting hcarries.ended)
    rw [hsent, List.map_eq_nil_iff.mp hleft, List.append_nil]
  · constructor
    · intro hall
      rw [or_iff_not_imp_left, not_forall]
      rintro ⟨record, hsome⟩
      rw [Classical.not_imp, not_not] at hsome
      obtain ⟨found, hfound, -⟩ := hall record hsome.1 hsome.2
      obtain ⟨old, hold, hlegible, -⟩ := (hread found).mp hfound
      exact ⟨⟨old, hold⟩, hlegible⟩
    · rintro (hnone | ⟨⟨old, hold⟩, hlegible⟩) record hrecord htold
      · exact absurd htold (hnone record hrecord)
      · obtain ⟨p, hp, hmem, -⟩ := hwritten record hrecord htold
        obtain ⟨r, hr⟩ := hback p (List.mem_of_mem_filter hp) record hmem
        refine ⟨_, (hread _).mpr ⟨old, hold, hlegible, rfl⟩, r, ?_, hr.decodes⟩
        refine List.mem_append_right _ (List.mem_flatMap.mpr ⟨record, List.mem_flatMap.mpr ⟨p, hp, hmem⟩, ?_⟩)
        rw [hr.recordsIn_eq]
        exact List.mem_singleton_self r

/-! ## Streams of one shard -/

/-- A stream of one shard on some device. -/
def streamOn (aggregate : Bool) (file : AppendFile) : FileStream :=
  ⟨"out", "/out", [⟨"/out/shard-0000.log", ["out", "shard-0000.log"], { file, aggregate, maxBatch := 100 }⟩]⟩

theorem opened_streamOn (aggregate : Bool) {file : AppendFile} (hpending : file.pending = []) :
    (streamOn aggregate file).Opened { shards := 1, aggregate } := by
  refine ⟨rfl, ?_, ?_, ?_⟩ <;>
    · intro shard hshard
      obtain rfl := List.mem_singleton.mp hshard
      simp [hpending]

/-- Records are handed over one after the other, each once the writer waits again. -/
def oneByOne : Nat → List Bytes → List StreamAction
  | _, [] => []
  | i, bytes :: records =>
    [.call (.dispatch ⟨"out", .ofShard 0, bytes⟩), .proceed i] ++ List.replicate 6 (.write 0) ++
      oneByOne (i + 1) records

def earlierMark : Bytes := encodeWatermark ⟨100, 101⟩

def laterMark : Bytes := encodeWatermark ⟨200, 201⟩

theorem readsBack_marks : ReadsBack earlierMark (.watermark 100 101) ∧ ReadsBack laterMark (.watermark 200 201) :=
  ⟨.watermark (by decide) (by decide), .watermark (by decide) (by decide)⟩

/-- The device refuses the first record after three bytes and takes all that comes later. The rest of the
first line waits in the buffer and goes in front of the second record, so both lines become whole. -/
theorem acknowledged_read_iff_refused_once :
    let sink := streamOn false { content := [], answers := [.refusesAfter 3] }
    let s := (StreamSession.follow { sink } (oneByOne 0 [earlierMark, laterMark])).1
    let events := (StreamSession.follow { sink } (oneByOne 0 [earlierMark, laterMark])).2
    events.filterMap StreamEvent.outcome? =
      [(0, .failed (.io FileFault.noSpace.message)), (1, .written)] ∧
    ∃ shard, s.sink.shards[0]? = some shard ∧ shard.writer.isWaiting = true ∧
      ∃ ps : List LinePart, shard.writer.file.content = ps.flatMap part ∧
        ps.flatMap line = [(0, earlierMark), (1, laterMark)] ∧ Legible false [] (begun ps) ∧
        ∃ found, readShard shard.writer.file.content = .ok found ∧ .watermark 200 201 ∈ found := by
  intro sink s events
  have hopened : sink.Opened { shards := 1, aggregate := false } := opened_streamOn false rfl
  have htold : events.filterMap StreamEvent.outcome? =
      [(0, .failed (.io FileFault.noSpace.message)), (1, .written)] := by decide +kernel
  have hsent : sink.recordsFor 0 events = [(0, earlierMark), (1, laterMark)] := by decide +kernel
  have hfile : (s.sink.shards[0]?.map fun shard => (shard.writer.file.content, shard.writer.isWaiting)) =
      some ((earlierMark ++ [lineFeed]) ++ (laterMark ++ [lineFeed]), true) := by decide +kernel
  obtain ⟨shard, hshard, hcontent⟩ := Option.map_eq_some_iff.mp hfile
  obtain ⟨hcontent, hwaiting⟩ := Prod.mk.inj hcontent
  have hrecords : ∀ record ∈ sink.recordsFor 0 events, Accepted record.2 := by
    rw [hsent, List.forall_mem_cons, List.forall_mem_singleton]
    exact ⟨readsBack_marks.1.accepted, readsBack_marks.2.accepted⟩
  obtain ⟨ps, -, hparts, -, hlines, -, hread, hall⟩ :=
    acknowledged_read_iff hopened (oneByOne 0 [earlierMark, laterMark]) rfl hshard hrecords
  have hboth : readShard shard.writer.file.content = .ok [.watermark 100 101, .watermark 200 201] := by
    rw [hcontent]
    refine (readsBack_marks.2.streamLine.readShard_part (List.prefix_refl _) (by simp)).mpr
      ⟨_, _, readsBack_marks.1.readShard_line, readsBack_marks.2.decodes, rfl, ?_, .inl rfl⟩
    rw [Bytes.openEnd_concat]
    simp
  obtain ⟨old, -, hlegible, -⟩ := (hread _).mp hboth
  refine ⟨htold, shard, hshard, hwaiting, ps, ?_, (hlines hwaiting).trans hsent, hlegible, _, hboth, by simp⟩
  rw [hparts]
  exact List.nil_append _

/-! ## Records that are told to be written and cannot be read -/

/-- Arrays one inside the other. -/
def isNested : Nat → Json.Value → Bool
  | 0, .array [] => true
  | n + 1, .array [v] => isNested n v
  | _, _ => false

theorem settle_of_isNested {n : Nat} {v : Json.Value} (h : isNested n v = true) (depth : Nat) :
    ∃ data, v.settle depth = some data := by
  fun_induction isNested n v with
  | case1 => exact ⟨.array [], by simp [Json.Value.settle, Json.settleItems]⟩
  | case2 n v ih =>
      obtain ⟨data, hdata⟩ := ih h
      exact ⟨.array [data], by simp [Json.Value.settle, Json.settleItems, hdata]⟩
  | case3 => simp at h

/-- The record of an event that nests as deep as a record may that is read alone. -/
def deepRecord : Bytes :=
  encodeEvent 1 ⟨1, "k", List.replicate 126 (ascii '[') ++ List.replicate 126 (ascii ']')⟩

theorem accepted_deepRecord : Accepted deepRecord := by
  refine ⟨.event (by decide) _, by decide +kernel, ?_⟩
  let payload := List.replicate 126 (ascii '[') ++ List.replicate 126 (ascii ']')
  have hraw : Json.rawValue? payload = some payload := by decide +kernel
  rw [deepRecord, decodeLine_iff_readable (by decide) hraw]
  have hread : (Json.Value.read payload).toOption.any (isNested 125) = true := by decide +kernel
  cases hv : Json.Value.read payload with
  | error fault => simp [hv, Except.toOption] at hread
  | ok v =>
      rw [hv] at hread
      obtain ⟨data, hdata⟩ := settle_of_isNested hread 0
      exact ⟨v, data, 0, hv, by decide +kernel, hdata⟩

/-- A device takes a record and then no more than five bytes of the next. The first is told to be written,
but the file ends in the middle of a line, and none of it can be read. In a stream of aggregates a record
that nests as deep as it may alone is told to be written, and its file cannot be read either. -/
theorem acknowledged_not_read :
    (let sink := streamOn false
        { content := [], answers := [.takes, .refusesAfter 5], afterwards := .refusesAfter 0 }
      let s := (StreamSession.follow { sink } (oneByOne 0 [earlierMark, laterMark])).1
      let events := (StreamSession.follow { sink } (oneByOne 0 [earlierMark, laterMark])).2
      sink.Opened { shards := 1, aggregate := false } ∧
      sink.recordsFor 0 events = [(0, earlierMark), (1, laterMark)] ∧
      Accepted earlierMark ∧ Accepted laterMark ∧
      (0, .written) ∈ events.filterMap StreamEvent.outcome? ∧
      ∃ shard, s.sink.shards[0]? = some shard ∧ shard.writer.isWaiting = true ∧
        ¬ ∃ found, readShard shard.writer.file.content = .ok found) ∧
    (let sink := streamOn true { content := [] }
      let s := (StreamSession.follow { sink } (oneByOne 0 [deepRecord])).1
      let events := (StreamSession.follow { sink } (oneByOne 0 [deepRecord])).2
      sink.Opened { shards := 1, aggregate := true } ∧ sink.recordsFor 0 events = [(0, deepRecord)] ∧
      Accepted deepRecord ∧ (0, .written) ∈ events.filterMap StreamEvent.outcome? ∧
      ∃ shard, s.sink.shards[0]? = some shard ∧ shard.writer.isWaiting = true ∧
        ¬ ∃ found, readShard shard.writer.file.content = .ok found) := by
  constructor
  · intro sink s events
    have hfile : (s.sink.shards[0]?.map fun shard => (shard.writer.file.content, shard.writer.isWaiting)) =
        some ((earlierMark ++ [lineFeed]) ++ laterMark.take 5, true) := by decide +kernel
    obtain ⟨shard, hshard, hcontent⟩ := Option.map_eq_some_iff.mp hfile
    obtain ⟨hcontent, hwaiting⟩ := Prod.mk.inj hcontent
    refine ⟨opened_streamOn false rfl, by decide +kernel, readsBack_marks.1.accepted,
      readsBack_marks.2.accepted, by decide +kernel, shard, hshard, hwaiting, ?_⟩
    rintro ⟨found, hfound⟩
    have hpart : laterMark.take 5 <+: laterMark ++ [lineFeed] :=
      (List.take_prefix _ _).trans (List.prefix_append _ _)
    have hne : laterMark.take 5 ≠ [] := by decide +kernel
    rw [hcontent, readsBack_marks.2.streamLine.readShard_part hpart hne] at hfound
    obtain ⟨-, -, -, -, -, -, hwhole⟩ := hfound
    revert hwhole
    decide +kernel
  · intro sink s events
    have hfile : (s.sink.shards[0]?.map fun shard => (shard.writer.file.content, shard.writer.isWaiting)) =
        some (rendered true [deepRecord], true) := by decide +kernel
    obtain ⟨shard, hshard, hcontent⟩ := Option.map_eq_some_iff.mp hfile
    obtain ⟨hcontent, hwaiting⟩ := Prod.mk.inj hcontent
    refine ⟨opened_streamOn true rfl, by decide +kernel, accepted_deepRecord, by decide +kernel, shard,
      hshard, hwaiting, ?_⟩
    rintro ⟨found, hfound⟩
    obtain ⟨r, hback⟩ := accepted_deepRecord.readsBack
    have hnone : readShard [] = .ok [] := rfl
    have hfit : FitLine true [deepRecord] := ⟨by simp, by simp⟩
    rw [hcontent, ← List.nil_append (rendered true [deepRecord]),
      readShard_rendered_iff hfit (.cons hback .nil) hnone] at hfound
    have hnests := hfound.1.2 rfl deepRecord (List.mem_singleton_self _)
    revert hnests
    decide +kernel

end StreamSession

end EventReplay
