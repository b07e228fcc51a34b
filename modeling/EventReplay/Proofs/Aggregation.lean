import Mathlib.Data.List.Forall2
import EventReplay.Proofs.RecordContext
import EventReplay.Proofs.WriterQueue
import EventReplay.Record.Shard

/-!
# Aggregates and lines read back alike

A line with one record is read as the record alone (`readShardLine_concat`), and an aggregate record after
record (`Record.readAll_items`). So the lines of a shard file hold the same records whether batches are
aggregated or not, and however the records are cut into batches (`readShard_rendered`).
-/

set_option autoImplicit false

namespace EventReplay

open Json (Lexeme Value opening closing comma)

/-! ## Lines for single records -/

theorem chopLine_concat {line : Bytes} (h : line.getLast? ≠ some 0x0D) :
    chopLine (line ++ [Bytes.lineFeed]) = line := by
  rw [chopLine, List.reverse_concat]
  simp only [if_true]
  rw [← List.head?_reverse] at h
  cases hreverse : line.reverse with
  | nil => exact (List.reverse_eq_nil_iff.mp hreverse).symm
  | cons c rest =>
      rw [hreverse, List.head?_cons, Ne, Option.some.injEq] at h
      simp only [h, if_false, ← hreverse, List.reverse_reverse]

/-- A line of a text that starts with a bracket is read as the text alone. -/
theorem readShardLine_concat {line : Bytes} {b : UInt8} (hopens : line.head? = some b)
    (hb : b = ascii '\x7b' ∨ b = ascii '[') (hcloses : line.getLast? ≠ some 0x0D)
    (htext : Utf8.IsText line) :
    readShardLine (line ++ [Bytes.lineFeed]) =
      match decodeLine line with
      | .ok records => .ok records
      | .error fault => .error (.record fault) := by
  obtain ⟨c, hc, hblank⟩ : ∃ c, String.utf8EncodeChar c = [b] ∧ isBlank c = false := by
    obtain rfl | rfl := hb
    · exact ⟨'\x7b', by decide, by decide⟩
    · exact ⟨'[', by decide, by decide⟩
  obtain ⟨rest, rfl⟩ := List.head?_eq_some_iff.mp hopens
  obtain ⟨-, s, rfl⟩ : Utf8.IsText [] ∧ Utf8.IsText rest := by
    apply Utf8.IsText.around (c := c)
    rw [hc]
    exact htext
  have hdecode : Utf8.decode? (b :: Utf8.encode s) = some (String.ofList (c :: s.toList)) := by
    rw [Utf8.decode?_eq_some, Utf8.encode_ofList_cons, hc, String.ofList_toList]
    rfl
  have hfull : (String.ofList (c :: s.toList)).toList.all isBlank = false := by
    rw [String.toList_ofList, List.all_cons, hblank, Bool.false_and]
  rw [readShardLine, chopLine_concat hcloses, hdecode]
  cases decodeLine (b :: Utf8.encode s) <;> simp only [hfull, Bool.false_eq_true, if_false]

/-- A line of a text between curly brackets is read as the text alone. -/
theorem readShardLine_braced {bytes : Bytes} (h : bytes.Braced) (htext : Utf8.IsText bytes) :
    readShardLine (bytes ++ [Bytes.lineFeed]) =
      match decodeLine bytes with
      | .ok records => .ok records
      | .error fault => .error (.record fault) := by
  refine readShardLine_concat h.opens (.inl rfl) ?_ htext
  rw [h.closes]
  decide

/-! ## Aggregates -/

theorem flatten_intersperse (separator first : Bytes) (pieces : List Bytes) :
    ((first :: pieces).intersperse separator).flatten =
      first ++ pieces.flatMap fun piece => separator ++ piece := by
  induction pieces generalizing first with
  | nil => simp
  | cons second pieces ih =>
      rw [List.intersperse_cons_cons, List.flatten_cons, List.flatten_cons, ih, List.flatMap_cons,
        List.append_assoc]

namespace Record

variable {depth room : Nat} {records found : List Record} {batch : List Bytes}

/-- The closing bracket of an aggregate. -/
def aggregateEnd : Lexeme := ⟨[], [ascii ']'], .closeArray⟩

theorem lex_aggregateEnd : Json.lex [ascii ']'] = [aggregateEnd] := by
  have hend : Json.lex [ascii ']'] = aggregateEnd :: Json.lex [] :=
    Json.lex_punctuation (by decide) (by decide) []
  rw [hend, Json.lex_empty]

/-- A record of an aggregate is read where it stands. -/
theorem readAll_item {bytes : Bytes} {record : Record} (h : StandsAs room bytes record)
    (hdepth : bytes.length ≤ depth) {need : Json.Need} (hneed : need = .firstItem ∨ need = .value)
    (ls : List Lexeme) :
    readAll depth room records need (Json.lex bytes ++ ls) =
      readAll depth room (record :: records) .moreItems ls := by
  have hread := h.read depth ls hdepth
  obtain ⟨rest, rfl⟩ := List.head?_eq_some_iff.mp h.braced.opens
  rw [Json.lex_opening, List.cons_append] at hread ⊢
  have hmove : Json.move need opening.token = .ok (.opening .object) := by
    obtain rfl | rfl := hneed <;> rfl
  rw [readAll, hmove]
  simp only
  split
  next fault hfault => simp [hread] at hfault
  next record' rest' hrecord =>
    rw [hread] at hrecord
    cases hrecord
    rfl

/-- The records of an aggregate behind the first one, read up to its end. -/
theorem readAll_items (h : List.Forall₂ (StandsAs room) batch found)
    (hdepth : ∀ bytes ∈ batch, bytes.length ≤ depth) :
    readAll depth room records .moreItems
        (Json.lex ((batch.flatMap fun bytes => [ascii ','] ++ bytes) ++ [ascii ']'])) =
      .ok (records.reverse ++ found, []) := by
  induction h generalizing records with
  | nil =>
      rw [List.flatMap_nil, List.nil_append, lex_aggregateEnd, readAll]
      simp only [List.append_nil]
      rfl
  | @cons bytes record batch found hstands _ ih =>
      rw [List.forall_mem_cons] at hdepth
      have hcomma : ∀ ls, readAll depth room records .moreItems (comma :: ls) =
          readAll depth room records .value ls := fun ls => by
        rw [readAll]
        rfl
      rw [List.flatMap_cons, List.append_assoc, List.append_assoc, List.singleton_append, Json.lex_comma,
        hstands.lexed, hcomma, readAll_item hstands hdepth.1 (.inr rfl), ih hdepth.2, List.reverse_cons,
        List.append_assoc, List.singleton_append]

end Record

namespace ShardWriter

variable {batch : List Bytes} {found : List Record}

/-- An aggregate without the line feed. -/
def aggregateText (batch : List Bytes) : Bytes :=
  ascii '[' :: ((batch.intersperse [ascii ',']).flatten ++ [ascii ']'])

theorem aggregateLine_eq (batch : List Bytes) :
    aggregateLine batch = aggregateText batch ++ [Bytes.lineFeed] := by
  simp [aggregateLine, aggregatePieces, aggregateText]

theorem isText_aggregateText (h : ∀ bytes ∈ batch, Utf8.IsText bytes) :
    Utf8.IsText (aggregateText batch) := by
  have hmark : ∀ b, b < 0x80 → Utf8.IsText [b] := fun b hb =>
    Utf8.isText_of_ascii (by simpa using hb)
  have hpieces : ∀ pieces : List Bytes, (∀ piece ∈ pieces, Utf8.IsText piece) →
      Utf8.IsText pieces.flatten := by
    intro pieces hpieces
    induction pieces with
    | nil => exact ⟨"", rfl⟩
    | cons piece pieces ih =>
        rw [List.forall_mem_cons] at hpieces
        exact hpieces.1.append (ih hpieces.2)
  have hitems := hpieces (batch.intersperse [ascii ',']) fun piece hpiece => by
    rcases mem_of_mem_intersperse hpiece with rfl | hmem
    · exact hmark _ (by decide)
    · exact h piece hmem
  exact (hmark (ascii '[') (by decide)).append (hitems.append (hmark (ascii ']') (by decide)))

/-- An aggregate is longer than each of its records. -/
theorem length_le_aggregateText {bytes : Bytes} (h : bytes ∈ batch) :
    bytes.length ≤ (aggregateText batch).length := by
  obtain ⟨first, rest, rfl⟩ := List.exists_cons_of_ne_nil (List.ne_nil_of_mem h)
  rw [aggregateText, flatten_intersperse]
  simp only [List.length_cons, List.length_append]
  rcases List.mem_cons.mp h with rfl | hmem
  · omega
  · have hle : ([ascii ','] ++ bytes).length ≤
        (rest.flatMap fun piece => [ascii ','] ++ piece).length := by
      rw [List.flatMap_def]
      exact (List.sublist_flatten_of_mem (List.mem_map_of_mem hmem)).length_le
    rw [List.length_append] at hle
    omega

/-- An aggregate holds the records of its batch. -/
theorem decodeLine_aggregateText (hbatch : batch ≠ [])
    (h : List.Forall₂ (StandsAs (Json.maxDepth - 2)) batch found) :
    decodeLine (aggregateText batch) = .ok found := by
  cases h with
  | nil => exact absurd rfl hbatch
  | @cons bytes record batch found hstands hrest =>
      have hlength : ∀ item ∈ bytes :: batch, item.length ≤ (aggregateText (bytes :: batch)).length :=
        fun _ => length_le_aggregateText
      rw [List.forall_mem_cons] at hlength
      have hstart : (aggregateText (bytes :: batch)).dropWhile Bytes.isAsciiBlank =
          aggregateText (bytes :: batch) := List.dropWhile_cons_of_neg (by decide)
      have hlex : Json.lex (aggregateText (bytes :: batch)) = ⟨[], [ascii '['], .openArray⟩ ::
          (Json.lex bytes ++
            Json.lex ((batch.flatMap fun bytes => [ascii ','] ++ bytes) ++ [ascii ']'])) := by
        rw [aggregateText, flatten_intersperse, List.append_assoc, ← hstands.lexed]
        exact Json.lex_punctuation (by decide) (by decide) _
      rw [decodeLine, hstart, hlex, Record.ofLexemes]
      simp only [if_true]
      rw [Record.readAll_item hstands hlength.1 (.inl rfl), Record.readAll_items hrest hlength.2]
      rfl

/-- The line of a batch holds the records of the batch. -/
theorem readShardLine_aggregateLine (hbatch : batch ≠ [])
    (h : List.Forall₂ (StandsAs (Json.maxDepth - 2)) batch found) :
    readShardLine (aggregateLine batch) = .ok found := by
  have htext : ∀ bytes ∈ batch, Utf8.IsText bytes := by
    clear hbatch
    induction h with
    | nil => simp
    | cons hstands _ ih => exact List.forall_mem_cons.mpr ⟨hstands.isText, ih⟩
  have hcloses : (aggregateText batch).getLast? = some (ascii ']') := by
    rw [aggregateText, ← List.cons_append]
    exact List.getLast?_concat
  rw [aggregateLine_eq, readShardLine_concat rfl (.inr rfl) ?_ (isText_aggregateText htext),
    decodeLine_aggregateText hbatch h]
  rw [hcloses]
  decide

end ShardWriter

/-! ## Files -/

/-- The bytes are those of a record that is read back alone and inside an array. -/
def HoldsRecord (bytes : Bytes) (record : Record) : Prop :=
  decodeLine bytes = .ok [record] ∧ StandsAs (Json.maxDepth - 2) bytes record

theorem forall₂_append_left {α β : Type} {R : α → β → Prop} {as as' : List α} {bs : List β}
    (h : List.Forall₂ R (as ++ as') bs) :
    ∃ front back, bs = front ++ back ∧ List.Forall₂ R as front ∧ List.Forall₂ R as' back := by
  induction as generalizing bs with
  | nil => exact ⟨[], bs, rfl, .nil, h⟩
  | cons a as ih =>
      obtain ⟨b, bs, hhead, htail, rfl⟩ := List.forall₂_cons_left_iff.mp h
      obtain ⟨front, back, rfl, hfront, hback⟩ := ih htail
      exact ⟨b :: front, back, rfl, .cons hhead hfront, hback⟩

namespace ShardWriter

/-- Lines of aggregates, batch after batch. -/
theorem readShardLines_aggregates {batches : List (List Bytes)} {found : List Record}
    (hnonempty : ∀ batch ∈ batches, batch ≠ [])
    (h : List.Forall₂ HoldsRecord batches.flatten found) :
    readShardLines (batches.map aggregateLine) = .ok found := by
  induction batches generalizing found with
  | nil =>
      obtain rfl := List.forall₂_nil_left_iff.mp h
      rfl
  | cons batch batches ih =>
      rw [List.forall_mem_cons] at hnonempty
      obtain ⟨front, back, rfl, hfront, hback⟩ := forall₂_append_left h
      have hline := readShardLine_aggregateLine hnonempty.1 (hfront.imp fun _ _ hholds => hholds.2)
      simp only [List.map_cons, readShardLines, hline, ih hnonempty.2 hback]

/-- Lines of single records. -/
theorem readShardLines_records {records : List Bytes} {found : List Record}
    (h : List.Forall₂ HoldsRecord records found) :
    readShardLines (records.map fun bytes => bytes ++ [Bytes.lineFeed]) = .ok found := by
  induction h with
  | nil => rfl
  | cons hholds _ ih =>
      simp only [List.map_cons, readShardLines, readShardLine_braced hholds.2.braced hholds.2.isText,
        hholds.1, ih, List.singleton_append]

/-- The file of batches holds the records of the batches, aggregated or not. -/
theorem readShard_rendered (aggregate : Bool) {batches : List (List Bytes)} {found : List Record}
    (hnonempty : ∀ batch ∈ batches, batch ≠ [])
    (hlines : ∀ bytes ∈ batches.flatten, Bytes.lineFeed ∉ bytes)
    (h : List.Forall₂ HoldsRecord batches.flatten found) :
    readShard (batches.map (rendered aggregate)).flatten = .ok found := by
  rw [readShard, lines_rendered aggregate hlines, fileLines]
  cases aggregate with
  | true => exact readShardLines_aggregates hnonempty h
  | false => exact readShardLines_records h

end ShardWriter

end EventReplay
