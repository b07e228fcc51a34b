import EventReplay.Proofs.BatchFiles
import EventReplay.Proofs.LineParts
import EventReplay.Proofs.ShardLines

/-!
# The lines that writers of shards write

A record that is read back alone is a line of a stream (`ReadsBack.streamLine`), and so is an aggregate of
such records (`streamLine_aggregateText`). The aggregate holds the records that its items hold, as long as none
of them nests too deep to stand in an array (`decodeLine_aggregateText_iff`).
-/

set_option autoImplicit false

namespace EventReplay

open Json (Marked Skips opening closing comma)

/-- The bytes are those of a record without line feeds, and are read back as the record. -/
structure ReadsBack (bytes : Bytes) (record : Record) : Prop where
  isRecord : IsRecord bytes
  oneLine : Bytes.lineFeed ∉ bytes
  decodes : decodeLine bytes = .ok [record]

/-- What `decodeLine` accepts of a record without line feeds is one record. -/
theorem IsRecord.readsBack {bytes : Bytes} (h : IsRecord bytes) (hline : Bytes.lineFeed ∉ bytes)
    {found : List Record} (haccepted : decodeLine bytes = .ok found) :
    ∃ record, found = [record] ∧ ReadsBack bytes record := by
  have hone : ∃ record, found = [record] := by
    cases h with
    | @event t ht event =>
        obtain ⟨v, data, d, -, -, rfl⟩ := (decodeLine_event_eq_ok ht).mp haccepted
        exact ⟨_, rfl⟩
    | watermark hvalue hemitted =>
        rw [decodeLine_watermark hvalue hemitted] at haccepted
        exact ⟨_, (Except.ok.inj haccepted).symm⟩
  obtain ⟨record, rfl⟩ := hone
  exact ⟨record, rfl, h, hline, haccepted⟩

/-! ## How deep a record nests -/

theorem nesting_of_reads {room : Nat} {v : Json.Value} (t : Int) {event : Event}
    (h : Json.Reads room v [] .value (Json.dataLexemes event.payload)) :
    Json.nesting (encodeEvent t event) ≤ room + 1 := by
  have hdeep := h.deepest_le (Nat.zero_le room)
  have hadd := Json.deepest_add_le 1 0 (Json.dataLexemes event.payload)
  have hlevels := (h.skips rfl).levels (fun _ => rfl) 1
  rw [Json.nesting, Json.lex_encodeEvent]
  simp only [Json.eventLexemes, Json.deepest, Json.Token.level, opening, Json.textLexeme, Json.comma,
    Json.colon, Nat.zero_add, Json.deepest_append, closing]
  simp only [List.map_nil, List.length_nil, Nat.add_zero] at hlevels hdeep hadd
  rw [hlevels]
  omega

theorem nesting_encodeWatermark (w : Watermark) : Json.nesting (encodeWatermark w) = 1 := by
  rw [Json.nesting, Json.lex_encodeWatermark]
  rfl

/-- A record nests one level deeper than there is room in it. -/
theorem IsRecord.nesting_of_read {bytes : Bytes} (h : IsRecord bytes) {depth room : Nat}
    {ls rest : List Json.Lexeme} {record : Record}
    (hread : Record.read depth room (Json.lex bytes ++ ls) = .ok (record, rest)) :
    Json.nesting bytes ≤ room + 1 := by
  cases h with
  | @event t ht event =>
      rw [Json.lex_encodeEvent, List.cons_append, Record.read_event depth room ht] at hread
      split at hread
      · simp at hread
      next v rest' hvalue => exact nesting_of_reads t (Record.readValue_data_eq_ok.mp hvalue).1
  | @watermark w =>
      rw [nesting_encodeWatermark]
      omega

namespace ReadsBack

variable {bytes : Bytes} {record : Record}

theorem marked (h : ReadsBack bytes record) : Marked bytes := by
  cases h.isRecord with
  | event => exact ⟨[], ascii 'y', _, rfl, by simp, by decide⟩
  | watermark => exact ⟨[], ascii 'y', _, rfl, by simp, by decide⟩

/-- The record is read where it stands, with room for the containers inside it. -/
theorem standsAs (h : ReadsBack bytes record) {room : Nat} (hnests : Json.nesting bytes ≤ room + 1) :
    StandsAs room bytes record := by
  obtain ⟨hrecord, -, hdecodes⟩ := h
  cases hrecord with
  | event ht event =>
      obtain ⟨record', hsame, hstands⟩ := standsAs_event ht hdecodes hnests
      obtain rfl : record = record' := by simpa using hsame
      exact hstands
  | @watermark w hvalue hemitted =>
      rw [decodeLine_watermark hvalue hemitted] at hdecodes
      obtain rfl : Record.watermark w.value w.emittedAt = record := by simpa using hdecodes
      exact standsAs_watermark hvalue hemitted room

theorem nesting_le (h : ReadsBack bytes record) : Json.nesting bytes ≤ Json.maxDepth - 1 + 1 := by
  obtain ⟨hrecord, -, hdecodes⟩ := h
  cases hrecord with
  | @event t ht event =>
      obtain ⟨v, data, d, hreads, -⟩ := (decodeLine_event_eq_ok ht).mp hdecodes
      exact nesting_of_reads t hreads
  | @watermark w =>
      rw [nesting_encodeWatermark]
      omega

theorem ofLexemes (h : ReadsBack bytes record) {depth : Nat} (hdepth : bytes.length ≤ depth) :
    Record.ofLexemes depth (Json.lex bytes) = .ok [record] := by
  have hstands := h.standsAs h.nesting_le
  have hread := hstands.read depth [] hdepth
  obtain ⟨rest, hbytes⟩ := List.head?_eq_some_iff.mp hstands.braced.opens
  have hlex : Json.lex bytes = opening :: Json.lex rest := by
    rw [hbytes]
    exact Json.lex_opening rest
  have hobject : opening.token ≠ .openArray := by decide
  rw [List.append_nil, hlex] at hread
  rw [hlex, Record.ofLexemes]
  simp only [hobject, if_false, hread]
  rfl

/-- A record is a line of a stream. -/
theorem streamLine (h : ReadsBack bytes record) : StreamLine bytes := by
  have hstands := h.standsAs h.nesting_le
  have hall := h.ofLexemes (Nat.le_refl _)
  refine ⟨h.marked, hstands.isText, h.oneLine, ⟨_, hstands.braced.closes, .inr rfl⟩,
    Record.skips_of_ofLexemes hall, fun depth found hdepth => ?_⟩
  rw [h.ofLexemes hdepth, h.decodes]

/-- A shard with this one line. -/
theorem readShard_line (h : ReadsBack bytes record) : readShard (bytes ++ [Bytes.lineFeed]) = .ok [record] := by
  have hnone : readShard [] = .ok [] := rfl
  have hline : readShard ([] ++ (bytes ++ [Bytes.lineFeed])) = .ok [record] :=
    (h.streamLine.readShard_part (List.prefix_refl _) (by simp)).mpr
      ⟨[], _, hnone, h.decodes, rfl, by simp [Bytes.openEnd], .inl rfl⟩
  rwa [List.nil_append] at hline

theorem watermark {w : Watermark} (hvalue : Millis.InRange w.value) (hemitted : Millis.InRange w.emittedAt) :
    ReadsBack (encodeWatermark w) (.watermark w.value w.emittedAt) :=
  ⟨.watermark hvalue hemitted, lineFeed_notMem_encodeWatermark w, decodeLine_watermark hvalue hemitted⟩

end ReadsBack

/-! ## Aggregates -/

namespace Record

variable {depth room : Nat} {records records' found : List Record} {batch : List Bytes}
  {rest : List Json.Lexeme}

/-- An item of an aggregate that is read nests no deeper than there is room. -/
theorem nesting_of_readAll {bytes : Bytes} {record : Record} (h : ReadsBack bytes record) {need : Json.Need}
    (hneed : need = .firstItem ∨ need = .value) {ls : List Json.Lexeme}
    (hread : readAll depth room records need (Json.lex bytes ++ ls) = .ok (found, rest)) :
    Json.nesting bytes ≤ room + 1 := by
  obtain ⟨more, hbytes⟩ := List.head?_eq_some_iff.mp (h.standsAs h.nesting_le).braced.opens
  have hlex : Json.lex bytes = opening :: Json.lex more := by
    rw [hbytes]
    exact Json.lex_opening more
  have hmove : Json.move need opening.token = .ok (.opening .object) := by
    obtain rfl | rfl := hneed <;> rfl
  rw [hlex, List.cons_append, readAll, hmove] at hread
  simp only at hread
  split at hread
  · simp at hread
  next record' rest' hrecord =>
    rw [← List.cons_append, ← hlex] at hrecord
    exact h.isRecord.nesting_of_read hrecord

theorem nesting_of_readAll_items (h : List.Forall₂ ReadsBack batch records')
    (hdepth : ∀ bytes ∈ batch, bytes.length ≤ depth)
    (hread : readAll depth room records .moreItems
      (Json.lex ((batch.flatMap fun bytes => [ascii ','] ++ bytes) ++ [ascii ']'])) = .ok (found, rest)) :
    ∀ bytes ∈ batch, Json.nesting bytes ≤ room + 1 := by
  induction h generalizing records with
  | nil => simp
  | @cons bytes record batch records' hback _ ih =>
      rw [List.forall_mem_cons] at hdepth
      have hcomma : ∀ ls, readAll depth room records .moreItems (comma :: ls) =
          readAll depth room records .value ls := fun ls => by
        rw [readAll]
        rfl
      rw [List.flatMap_cons, List.append_assoc, List.append_assoc, List.singleton_append, Json.lex_comma,
        (hback.standsAs hback.nesting_le).lexed, hcomma] at hread
      have hnests := nesting_of_readAll hback (.inr rfl) hread
      rw [readAll_item (hback.standsAs hnests) hdepth.1 (.inr rfl)] at hread
      exact List.forall_mem_cons.mpr ⟨hnests, ih hdepth.2 hread⟩

end Record

namespace ShardWriter

variable {batch : List Bytes} {records : List Record}

theorem forall₂_standsAs {room : Nat} (h : List.Forall₂ ReadsBack batch records)
    (hnests : ∀ bytes ∈ batch, Json.nesting bytes ≤ room + 1) :
    List.Forall₂ (StandsAs room) batch records := by
  induction h with
  | nil => exact .nil
  | cons hback _ ih =>
      rw [List.forall_mem_cons] at hnests
      exact .cons (hback.standsAs hnests.1) (ih hnests.2)

/-- The lexemes of an aggregate of records are read just if each of them may stand in an array. -/
theorem ofLexemes_aggregateText (hbatch : batch ≠ []) (h : List.Forall₂ ReadsBack batch records)
    {depth : Nat} (hdepth : (aggregateText batch).length ≤ depth) {found : List Record} :
    Record.ofLexemes depth (Json.lex (aggregateText batch)) = .ok found ↔
      (∀ bytes ∈ batch, Json.nesting bytes ≤ 126) ∧ found = records := by
  cases h with
  | nil => exact absurd rfl hbatch
  | @cons bytes record batch records hback hrest =>
      have hlength : ∀ item ∈ bytes :: batch, item.length ≤ depth := fun item hitem =>
        Nat.le_trans (length_le_aggregateText hitem) hdepth
      rw [List.forall_mem_cons] at hlength
      have hlex : Json.lex (aggregateText (bytes :: batch)) = ⟨[], [ascii '['], .openArray⟩ ::
          (Json.lex bytes ++
            Json.lex ((batch.flatMap fun bytes => [ascii ','] ++ bytes) ++ [ascii ']'])) := by
        rw [aggregateText, flatten_intersperse, List.append_assoc,
          ← (hback.standsAs hback.nesting_le).lexed]
        exact Json.lex_punctuation (by decide) (by decide) _
      have hread : (∀ item ∈ bytes :: batch, Json.nesting item ≤ 126) →
          Record.ofLexemes depth (Json.lex (aggregateText (bytes :: batch))) = .ok (record :: records) := by
        intro hnests
        rw [List.forall_mem_cons] at hnests
        have hstands : StandsAs (Json.maxDepth - 2) bytes record := hback.standsAs hnests.1
        have hitems : List.Forall₂ (StandsAs (Json.maxDepth - 2)) batch records :=
          forall₂_standsAs hrest hnests.2
        rw [hlex, Record.ofLexemes]
        simp only [if_true]
        rw [Record.readAll_item hstands hlength.1 (.inl rfl), Record.readAll_items hitems hlength.2]
        rfl
      constructor
      · intro hfound
        have hnests : ∀ item ∈ bytes :: batch, Json.nesting item ≤ 126 := by
          rw [hlex, Record.ofLexemes] at hfound
          simp only [if_true] at hfound
          split at hfound
          · simp at hfound
          next hitems =>
            have hfirst := Record.nesting_of_readAll hback (.inl rfl) hitems
            rw [Record.readAll_item (hback.standsAs hfirst) hlength.1 (.inl rfl)] at hitems
            exact List.forall_mem_cons.mpr
              ⟨hfirst, Record.nesting_of_readAll_items hrest hlength.2 hitems⟩
          · simp at hfound
        exact ⟨hnests, Except.ok.inj (hfound.symm.trans (hread hnests))⟩
      · rintro ⟨hnests, rfl⟩
        exact hread hnests

theorem marked_aggregateText (hbatch : batch ≠ []) (h : List.Forall₂ ReadsBack batch records) :
    Marked (aggregateText batch) := by
  cases h with
  | nil => exact absurd rfl hbatch
  | @cons bytes record batch records hback hrest =>
      rw [aggregateText, flatten_intersperse, List.append_assoc]
      exact (hback.marked.append _).inArray

/-- An aggregate of records is read just if each of them may stand in an array. -/
theorem decodeLine_aggregateText_iff (hbatch : batch ≠ []) (h : List.Forall₂ ReadsBack batch records)
    {found : List Record} :
    decodeLine (aggregateText batch) = .ok found ↔
      (∀ bytes ∈ batch, Json.nesting bytes ≤ 126) ∧ found = records := by
  have hstart := dropWhile_append_marked (marked_aggregateText hbatch h) []
  rw [List.nil_append, List.dropWhile_nil, List.nil_append] at hstart
  rw [decodeLine, hstart, ofLexemes_aggregateText hbatch h (Nat.le_refl _)]

/-- The items of an aggregate behind the first, with its end, are the rest of an array. -/
theorem skips_items (h : List.Forall₂ ReadsBack batch records) :
    Skips [.array] .moreItems
      (Json.lex ((batch.flatMap fun bytes => [ascii ','] ++ bytes) ++ [ascii ']'])) := by
  induction h with
  | nil =>
      rw [List.flatMap_nil, List.nil_append, Record.lex_aggregateEnd]
      exact Json.skips_closeArray rfl
  | @cons bytes record batch records hback _ ih =>
      rw [List.flatMap_cons, List.append_assoc, List.append_assoc, List.singleton_append, Json.lex_comma,
        (hback.standsAs hback.nesting_le).lexed]
      exact (hback.streamLine.whole.item ih).comma rfl

theorem streamLines (h : List.Forall₂ ReadsBack batch records) : ∀ bytes ∈ batch, StreamLine bytes := by
  induction h with
  | nil => simp
  | cons hback _ ih => exact List.forall_mem_cons.mpr ⟨hback.streamLine, ih⟩

/-- An aggregate of records is a line of a stream. -/
theorem streamLine_aggregateText (hbatch : batch ≠ []) (h : List.Forall₂ ReadsBack batch records) :
    StreamLine (aggregateText batch) := by
  have hall := streamLines h
  refine ⟨marked_aggregateText hbatch h, isText_aggregateText fun bytes hbytes => (hall bytes hbytes).isText,
    ?_, ⟨ascii ']', ?_, .inl rfl⟩, ?_, fun depth found hdepth => ?_⟩
  · obtain ⟨body, hline, hbody⟩ := isLine_aggregateLine fun bytes hbytes => (hall bytes hbytes).oneLine
    rw [aggregateLine_eq] at hline
    rw [List.append_cancel_right hline]
    exact hbody
  · rw [aggregateText, ← List.cons_append]
    exact List.getLast?_concat
  · cases h with
    | nil => exact absurd rfl hbatch
    | @cons bytes record batch records hback hrest =>
        have hitem := hback.streamLine.whole.item (skips_items hrest)
        obtain ⟨l, ls, hlex, hl⟩ := Json.lex_of_marked hback.marked
        have hfirst : Skips [.array] .firstItem (Json.lex bytes ++
            Json.lex ((batch.flatMap fun bytes => [ascii ','] ++ bytes) ++ [ascii ']'])) := by
          refine hitem.firstItem ?_
          rw [hlex]
          rintro l' ⟨⟩ hclose
          simp [hclose] at hl
        rw [← (hback.standsAs hback.nesting_le).lexed, ← List.append_assoc, ← flatten_intersperse] at hfirst
        have hopen : Json.lex (aggregateText (bytes :: batch)) = ⟨[], [ascii '['], .openArray⟩ ::
            Json.lex (((bytes :: batch).intersperse [ascii ',']).flatten ++ [ascii ']']) :=
          Json.lex_punctuation (by decide) (by decide) _
        rw [hopen]
        exact .next rfl rfl hfirst
  · rw [ofLexemes_aggregateText hbatch h hdepth, decodeLine_aggregateText_iff hbatch h]

/-! ## Lines in either mode -/

/-- The text of a line that holds some payloads, which is one payload if lines are no aggregates. -/
def lineText (aggregate : Bool) (payloads : List Bytes) : Bytes :=
  if aggregate then aggregateText payloads else payloads.flatten

variable {aggregate : Bool}

theorem rendered_of_fitLine (hfit : FitLine aggregate batch) :
    rendered aggregate batch = lineText aggregate batch ++ [Bytes.lineFeed] := by
  cases aggregate with
  | true => exact aggregateLine_eq batch
  | false =>
      obtain ⟨bytes, rfl⟩ := List.length_eq_one_iff.mp (hfit.2 rfl)
      simp [rendered, lineText, linePieces]

theorem streamLine_lineText (hfit : FitLine aggregate batch) (h : List.Forall₂ ReadsBack batch records) :
    StreamLine (lineText aggregate batch) := by
  cases aggregate with
  | true => exact streamLine_aggregateText hfit.1 h
  | false =>
      obtain ⟨bytes, rfl⟩ := List.length_eq_one_iff.mp (hfit.2 rfl)
      rw [lineText, if_neg (by decide), List.flatten_singleton]
      exact streamLines h bytes (by simp)

/-- A line holds the records of its payloads, as long as none nests too deep to stand in an array. -/
theorem decodeLine_lineText_iff (hfit : FitLine aggregate batch) (h : List.Forall₂ ReadsBack batch records)
    {found : List Record} :
    decodeLine (lineText aggregate batch) = .ok found ↔
      (aggregate = true → ∀ bytes ∈ batch, Json.nesting bytes ≤ 126) ∧ found = records := by
  cases aggregate with
  | true =>
      rw [lineText, if_pos rfl, decodeLine_aggregateText_iff hfit.1 h]
      simp
  | false =>
      obtain ⟨bytes, rfl⟩ := List.length_eq_one_iff.mp (hfit.2 rfl)
      cases h with
      | cons h hnil =>
          cases hnil
          rw [lineText, if_neg (by decide), List.flatten_singleton, h.decodes]
          simp [eq_comm]

/-- What a line that is written whole makes of a file that could be read. -/
theorem readShard_rendered_iff (hfit : FitLine aggregate batch) (h : List.Forall₂ ReadsBack batch records)
    {content : Bytes} {old : List Record} (hold : readShard content = .ok old) {found : List Record} :
    readShard (content ++ rendered aggregate batch) = .ok found ↔
      ((∀ b ∈ Bytes.openEnd content, Bytes.isAsciiBlank b = true) ∧
        (aggregate = true → ∀ bytes ∈ batch, Json.nesting bytes ≤ 126)) ∧ found = old ++ records := by
  rw [rendered_of_fitLine hfit, (streamLine_lineText hfit h).readShard_part (List.prefix_refl _) (by simp)]
  simp only [decodeLine_lineText_iff hfit h, hold, true_or]
  constructor
  · rintro ⟨old', new, hsame, ⟨hnests, rfl⟩, rfl, hblank, -⟩
    obtain rfl := Except.ok.inj hsame
    exact ⟨⟨hblank, hnests⟩, rfl⟩
  · rintro ⟨⟨hblank, hnests⟩, rfl⟩
    exact ⟨old, records, rfl, ⟨hnests, rfl⟩, rfl, hblank, trivial⟩

end ShardWriter

end EventReplay
