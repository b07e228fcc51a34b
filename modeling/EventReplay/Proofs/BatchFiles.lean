import EventReplay.Proofs.Aggregation

/-!
# The file of batches

A writer with an empty file that writes batch after batch without failure leaves a file of just these
batches (`ShardWriter.content_writeBatches`). Its readers find the records in it, whether the writer
aggregates or not and however the records were cut into batches (`readShard_writeBatches`).
-/

set_option autoImplicit false

namespace EventReplay

open Json (Value)

/-! ## Writing without failure -/

namespace ShardWriter

variable {writer : ShardWriter}

/-- A batch that is written stands whole in the file. -/
theorem writeBatch_eq_written {batch : List (Nat × Bytes)} (hpending : writer.file.pending = [])
    (h : (writer.writeBatch batch).1 = .written) :
    (writer.writeBatch batch).2.pending = [] ∧
      (writer.writeBatch batch).2.content =
        writer.file.content ++ rendered writer.aggregate (batch.map Prod.snd) := by
  unfold writeBatch at h ⊢
  split at h
  next => simp at h
  next file hwrite =>
    split at h
    next => simp at h
    next file' hflush =>
      obtain ⟨hempty, hcontent⟩ := AppendFile.flush_eq_ok hflush
      refine ⟨hempty, ?_⟩
      show file'.content = _
      rw [hcontent, AppendFile.writeAll_eq_ok hwrite, AppendFile.written, hpending, List.append_nil]
      rfl

/-- Writes batch after batch; gives their outcomes and the file. -/
def writeBatches (writer : ShardWriter) : List (List (Nat × Bytes)) → List Outcome × AppendFile
  | [] => ([], writer.file)
  | batch :: batches =>
    let (outcome, file) := writer.writeBatch batch
    let (outcomes, file) := writeBatches { writer with file } batches
    (outcome :: outcomes, file)

theorem content_writeBatches {batches : List (List (Nat × Bytes))}
    (hpending : writer.file.pending = [])
    (hwritten : ∀ outcome ∈ (writer.writeBatches batches).1, outcome = .written) :
    (writer.writeBatches batches).2.content = writer.file.content ++
      ((batches.map fun batch => batch.map Prod.snd).map (rendered writer.aggregate)).flatten := by
  induction batches generalizing writer with
  | nil => simp only [writeBatches, List.map_nil, List.flatten_nil, List.append_nil]
  | cons batch batches ih =>
      simp only [writeBatches, List.forall_mem_cons] at hwritten ⊢
      obtain ⟨hempty, hcontent⟩ := writeBatch_eq_written hpending hwritten.1
      rw [ih hempty hwritten.2, hcontent]
      simp only [List.map_cons, List.flatten_cons, List.append_assoc]

/-- On a device that takes all bytes every batch is written. -/
theorem written_of_takes {batches : List (List (Nat × Bytes))} (htakes : writer.file.Takes)
    (hpending : writer.file.pending = []) :
    ∀ outcome ∈ (writer.writeBatches batches).1, outcome = .written := by
  induction batches generalizing writer with
  | nil => simp [writeBatches]
  | cons batch batches ih =>
      obtain ⟨file, hwrite, htakes', hpending', -⟩ := writeBatch_of_takes htakes hpending batch
      simp only [writeBatches, hwrite, List.forall_mem_cons, true_and]
      exact ih htakes' hpending'

end ShardWriter

/-! ## Records in a file -/

/-- The bytes are what is written of an event or of a watermark, whose times 64 bits hold. -/
inductive IsRecord : Bytes → Prop
  | event {t : Int} (ht : Millis.InRange t) (event : Event) : IsRecord (encodeEvent t event)
  | watermark {w : Watermark} (hvalue : Millis.InRange w.value) (hemitted : Millis.InRange w.emittedAt) :
    IsRecord (encodeWatermark w)

/-- A record that is read back and nests one level less deep than a line may is read in an array, too. -/
theorem IsRecord.holdsRecord {bytes : Bytes} (h : IsRecord bytes)
    (haccepted : ∃ found, decodeLine bytes = .ok found) (hnests : Json.nesting bytes ≤ 126) :
    ∃ record, HoldsRecord bytes record := by
  obtain ⟨found, hfound⟩ := haccepted
  cases h with
  | event ht event =>
      have hroom : Json.nesting (encodeEvent _ event) ≤ Json.maxDepth - 2 + 1 := hnests
      obtain ⟨record, rfl, hstands⟩ := standsAs_event ht hfound hroom
      exact ⟨record, hfound, hstands⟩
  | @watermark w hvalue hemitted =>
      exact ⟨Record.watermark w.value w.emittedAt, decodeLine_watermark hvalue hemitted,
        standsAs_watermark hvalue hemitted _⟩

/-- Records that are read back one by one. -/
theorem mapM_decodeLine {records : List Bytes} (h : ∀ bytes ∈ records, ∃ record, HoldsRecord bytes record) :
    ∃ found : List Record, List.Forall₂ HoldsRecord records found ∧
      records.mapM decodeLine = .ok (found.map fun record => [record]) := by
  induction records with
  | nil => exact ⟨[], .nil, rfl⟩
  | cons bytes records ih =>
      rw [List.forall_mem_cons] at h
      obtain ⟨⟨record, hholds⟩, hrest⟩ := h
      obtain ⟨found, hfound, hmapM⟩ := ih hrest
      refine ⟨record :: found, .cons hholds hfound, ?_⟩
      rw [List.mapM_cons, hholds.1, hmapM]
      rfl

/-- A writer with an empty file writes the records in batches, each of them in one line or not, and all
without failure. -/
structure ShardWriter.WritesAll (writer : ShardWriter) (aggregate : Bool)
    (batches : List (List (Nat × Bytes))) (records : List Bytes) : Prop where
  mode : writer.aggregate = aggregate
  fresh : writer.file.content = [] ∧ writer.file.pending = []
  cut : (batches.map fun batch => batch.map Prod.snd).flatten = records
  nonempty : ∀ batch ∈ batches, batch ≠ []
  written : ∀ outcome ∈ (writer.writeBatches batches).1, outcome = .written

theorem ShardWriter.WritesAll.readShard {writer : ShardWriter} {aggregate : Bool}
    {batches : List (List (Nat × Bytes))} {records : List Bytes} {found : List Record}
    (h : writer.WritesAll aggregate batches records)
    (hlines : ∀ bytes ∈ records, Bytes.lineFeed ∉ bytes) (hfound : List.Forall₂ HoldsRecord records found) :
    readShard (writer.writeBatches batches).2.content = .ok found := by
  obtain ⟨-, ⟨hcontent, hpending⟩, rfl, hnonempty, hwritten⟩ := h
  rw [content_writeBatches hpending hwritten, hcontent, List.nil_append]
  refine readShard_rendered writer.aggregate (fun batch hbatch => ?_) hlines hfound
  obtain ⟨batch, hmem, rfl⟩ := List.mem_map.mp hbatch
  simpa using hnonempty batch hmem

/-- The file of a writer holds the records that it has written, whatever batches its queue made it cut. -/
theorem ShardWriter.Wrote.readShard {writer : ShardWriter} {sent done : List ShardCommand}
    {batches : List (List Bytes)} {found : List Record} (h : writer.Wrote sent done batches)
    (hlines : ∀ bytes ∈ batches.flatten, Bytes.lineFeed ∉ bytes)
    (hfound : List.Forall₂ HoldsRecord batches.flatten found) :
    readShard writer.file.content = .ok found := by
  rw [h.content]
  exact readShard_rendered writer.aggregate h.nonempty hlines hfound

/-- Records without line feeds that are each read back alone and nest at most 126 levels deep are read back
from the file of a writer that aggregates as from the file of one that does not, in whatever batches
either has written them: both hold what the records hold one by one. -/
theorem readShard_writeBatches {records : List Bytes} (hrecords : ∀ bytes ∈ records, IsRecord bytes)
    (hlines : ∀ bytes ∈ records, Bytes.lineFeed ∉ bytes)
    (haccepted : ∀ bytes ∈ records, ∃ found, decodeLine bytes = .ok found)
    (hnests : ∀ bytes ∈ records, Json.nesting bytes ≤ 126)
    {aggregating lined : ShardWriter} {batches batches' : List (List (Nat × Bytes))}
    (haggregates : aggregating.WritesAll true batches records) (hlined : lined.WritesAll false batches' records) :
    readShard (aggregating.writeBatches batches).2.content =
        readShard (lined.writeBatches batches').2.content ∧
      ∃ decoded, records.mapM decodeLine = .ok decoded ∧
        readShard (lined.writeBatches batches').2.content = .ok decoded.flatten := by
  have hholds : ∀ bytes ∈ records, ∃ record, HoldsRecord bytes record := fun bytes hbytes =>
    (hrecords bytes hbytes).holdsRecord (haccepted bytes hbytes) (hnests bytes hbytes)
  obtain ⟨found, hfound, hmapM⟩ := mapM_decodeLine hholds
  have hline := hlined.readShard hlines hfound
  have hflatten : (found.map fun record => [record]).flatten = found := by
    rw [← List.flatMap_def, List.flatMap_singleton']
  refine ⟨(haggregates.readShard hlines hfound).trans hline.symm, _, hmapM, ?_⟩
  rw [hline, hflatten]

/-- An event and a watermark, in one batch and in two. -/
theorem readShard_writeBatches_two_records :
    let event := encodeEvent 250 ⟨100, "k", Bytes.ofInt 7⟩
    let watermark := encodeWatermark ⟨250, 300⟩
    let writer := fun aggregate : Bool =>
      ({ file := { content := [] }, aggregate, maxBatch := 2 } : ShardWriter)
    readShard ((writer true).writeBatches [[(0, event), (1, watermark)]]).2.content =
        readShard ((writer false).writeBatches [[(0, event)], [(1, watermark)]]).2.content ∧
      ∃ decoded, [event, watermark].mapM decodeLine = .ok decoded ∧
        readShard ((writer false).writeBatches [[(0, event)], [(1, watermark)]]).2.content =
          .ok decoded.flatten := by
  intro event watermark writer
  have hread : Value.read (Bytes.ofInt 7) = .ok (.int 7) := Json.read_ofInt (by decide)
  have hreads := reads_data_of_read (n := 126) hread .int
  have hsettle : (Value.int 7).settle 0 = some (.int 7) := by
    simp only [Value.settle]
  have hdata : Json.dataLexemes (Bytes.ofInt 7) = [⟨[], Bytes.ofInt 7, .number (Json.numeralOf 7)⟩] := by
    rw [Json.dataLexemes, Json.rawValue?_of_read hread, Json.lex_ofInt_self]
    rfl
  have hwrites : ∀ aggregate batches, (batches.map fun batch => batch.map Prod.snd).flatten =
      [event, watermark] → (∀ batch ∈ batches, batch ≠ []) →
      (writer aggregate).WritesAll aggregate batches [event, watermark] := fun _ _ hcut hnonempty =>
    ⟨rfl, ⟨rfl, rfl⟩, hcut, hnonempty, ShardWriter.written_of_takes ⟨rfl, rfl⟩ rfl⟩
  have haggregates := hwrites true [[(0, event), (1, watermark)]] rfl (by simp)
  have hlined := hwrites false [[(0, event)], [(1, watermark)]] rfl (by simp)
  refine readShard_writeBatches ?_ ?_ ?_ ?_ haggregates hlined
  all_goals rw [List.forall_mem_cons, List.forall_mem_singleton]
  · exact ⟨.event (by decide) _, .watermark (by decide) (by decide)⟩
  · exact ⟨lineFeed_notMem_encodeEvent 250 (by decide), lineFeed_notMem_encodeWatermark _⟩
  · exact ⟨⟨_, (decodeLine_event_eq_ok (by decide)).mpr ⟨_, _, 0, hreads, hsettle, rfl⟩⟩,
      ⟨_, decodeLine_watermark (by decide) (by decide)⟩⟩
  · rw [Json.nesting, Json.lex_encodeEvent, Json.eventLexemes, hdata, Json.nesting,
      Json.lex_encodeWatermark]
    decide

end EventReplay
