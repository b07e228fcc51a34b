import EventReplay.Proofs.RecordRoundTrip
import EventReplay.Proofs.TextNesting

/-!
# A record wherever it stands

A record that is read back alone is read in the same way with anything behind it, and inside an array too
if it nests one level less deep than a line may (`standsAs_event`, `standsAs_watermark`).
-/

set_option autoImplicit false

namespace EventReplay

open Json (Lexeme Value opening closing)

/-! ## Watermarks -/

namespace Json

/-- The lexemes of the members of a watermark's record, up to its end. -/
def watermarkLexemes (w : Watermark) : List Lexeme :=
  [textLexeme "type", colon, textLexeme "watermark", comma,
    textLexeme "watermark", colon, ⟨[], Bytes.ofInt w.value, .number (numeralOf w.value)⟩, comma,
    textLexeme "emitted_at", colon, ⟨[], Bytes.ofInt w.emittedAt, .number (numeralOf w.emittedAt)⟩,
    closing]

/-- The record of a watermark is written member after member. -/
theorem encodeWatermark_eq (w : Watermark) :
    encodeWatermark w =
      ascii '\x7b' :: (quoted "type" ++ ascii ':' :: (quoted "watermark" ++ ascii ',' ::
        (quoted "watermark" ++ ascii ':' :: (Bytes.ofInt w.value ++ ascii ',' ::
          (quoted "emitted_at" ++ ascii ':' :: (Bytes.ofInt w.emittedAt ++ [ascii '\x7d'])))))) := by
  have hfront : Bytes.ofAscii "\x7b\"type\":\"watermark\",\"watermark\":" = ascii '\x7b' ::
      (quoted "type" ++ ascii ':' :: (quoted "watermark" ++ ascii ',' ::
        (quoted "watermark" ++ [ascii ':']))) := by
    decide
  have hemitted : Bytes.ofAscii ",\"emitted_at\":" = ascii ',' :: (quoted "emitted_at" ++ [ascii ':']) := by
    decide
  have hend : Bytes.ofAscii "\x7d" = [ascii '\x7d'] := by decide
  rw [encodeWatermark, hfront, hemitted, hend]
  simp only [List.append_assoc, List.cons_append, List.nil_append]

/-- The lexemes of a watermark's record are the same in front of anything. -/
theorem lex_encodeWatermark_append (w : Watermark) (x : Bytes) :
    lex (encodeWatermark w ++ x) = opening :: (watermarkLexemes w ++ lex x) := by
  have hcomma : ∀ x, Stops (ascii ',' :: x) := fun x => stops_cons.mpr (by decide)
  have hclosing : Stops (ascii '\x7d' :: x) := stops_cons.mpr (by decide)
  rw [encodeWatermark_eq]
  simp only [List.cons_append, List.append_assoc, List.nil_append]
  rw [lex_opening, lex_quoted, lex_colon, lex_quoted, lex_comma, lex_quoted, lex_colon,
    lex_ofInt _ (hcomma _), lex_comma, lex_quoted, lex_colon, lex_ofInt _ hclosing, lex_closing_cons]
  rfl

theorem lex_encodeWatermark (w : Watermark) :
    lex (encodeWatermark w) = opening :: watermarkLexemes w := by
  have h := lex_encodeWatermark_append w []
  rwa [List.append_nil, lex_empty, List.append_nil] at h

end Json

namespace Record

open Json (textLexeme comma colon)

theorem readType_watermark (ls : List Lexeme) :
    readType (textLexeme "watermark" :: ls) = .ok (.watermark, ls) := by
  have hmove : Json.startValue (textLexeme "watermark").token = .ok .scalar := rfl
  have hname : RecordType.ofName? "watermark" = some .watermark := by decide
  rw [readType, hmove]
  simp only [scalarValue_textLexeme, hname]

/-- The record of a watermark, read from its lexemes, whatever stands behind them. -/
theorem read_watermark (depth room : Nat) {w : Watermark} (hvalue : Millis.InRange w.value)
    (hemitted : Millis.InRange w.emittedAt) (ls : List Lexeme) :
    read depth room (opening :: (Json.watermarkLexemes w ++ ls)) =
      .ok (.watermark w.value w.emittedAt, ls) := by
  have hmove : Json.startValue opening.token = .ok (.opening .object) := rfl
  have hnumber : ∀ {t : Int}, Millis.InRange t →
      Json.scalarValue (.number (Json.numeralOf t)) = .ok (.int t) := fun ht => by
    rw [Json.scalarValue, Json.value?_numeralOf ht]
  have hmembers : readMembers room none [] .firstKey (Json.watermarkLexemes w ++ ls) =
      .ok ((some .watermark, [("watermark", .int w.value), ("emitted_at", .int w.emittedAt)]), ls) := by
    simp only [Json.watermarkLexemes, List.cons_append, List.nil_append]
    rw [readMembers_name (.inl rfl), if_pos rfl]
    simp only [Option.isSome_none, Bool.false_eq_true, if_false, readType_watermark, readMembers_comma]
    rw [readMembers_name (.inr rfl), if_neg (by decide), readValue_scalar rfl (hnumber hvalue)]
    simp only [readMembers_comma]
    rw [readMembers_name (.inr rfl), if_neg (by decide), readValue_scalar rfl (hnumber hemitted)]
    simp only [readMembers_closing, List.reverse_cons, List.reverse_nil, List.nil_append,
      List.cons_append]
  have hfields : ((fieldNames .watermark).mapM fun name => field? name
      [("watermark", .int w.value), ("emitted_at", .int w.emittedAt)]) =
        some [.int w.value, .int w.emittedAt] := by
    simp [fieldNames, field?]
  have htime : ∀ {t : Int}, Millis.InRange t → time? (.int t) = some t := fun ht => by
    rw [time?, if_pos ht]
  simp only [read, hmove, hmembers, ofMembers?, hfields, ofFields?, htime hvalue, htime hemitted]
  rfl

end Record

/-- The record of a watermark is read back. -/
theorem decodeLine_watermark {w : Watermark} (hvalue : Millis.InRange w.value)
    (hemitted : Millis.InRange w.emittedAt) :
    decodeLine (encodeWatermark w) = .ok [.watermark w.value w.emittedAt] := by
  have hstart : (encodeWatermark w).dropWhile Bytes.isAsciiBlank = encodeWatermark w := by
    rw [Json.encodeWatermark_eq, List.dropWhile_cons_of_neg (by decide)]
  have hopening : opening.token ≠ .openArray := by decide
  have hread := Record.read_watermark (encodeWatermark w).length (Json.maxDepth - 1) hvalue hemitted []
  rw [List.append_nil] at hread
  rw [decodeLine, hstart, Json.lex_encodeWatermark, Record.ofLexemes]
  simp only [hopening, if_false, hread]
  rfl

/-! ## Records in front of anything -/

/-- Bytes that stand between curly brackets. -/
structure Bytes.Braced (bytes : Bytes) : Prop where
  opens : bytes.head? = some (ascii '\x7b')
  closes : bytes.getLast? = some (ascii '\x7d')

/-- The bytes are those of a record between its braces, which is read from their lexemes whatever stands
behind them, with room for so many containers inside it. -/
structure StandsAs (room : Nat) (bytes : Bytes) (record : Record) : Prop where
  braced : bytes.Braced
  isText : Utf8.IsText bytes
  lexed : ∀ x, Json.lex (bytes ++ x) = Json.lex bytes ++ Json.lex x
  read : ∀ depth ls, bytes.length ≤ depth →
    Record.read depth room (Json.lex bytes ++ ls) = .ok (record, ls)

theorem braced_encodeEvent (t : Int) (event : Event) : (encodeEvent t event).Braced := by
  refine ⟨?_, List.getLast?_concat⟩
  rw [Json.encodeEvent_eq, List.head?_cons]

theorem braced_encodeWatermark (w : Watermark) : (encodeWatermark w).Braced := by
  refine ⟨?_, List.getLast?_concat⟩
  rw [Json.encodeWatermark_eq, List.head?_cons]

theorem isText_ofAscii (s : String) (h : (Bytes.ofAscii s).all (· < 0x80) = true) :
    Utf8.IsText (Bytes.ofAscii s) :=
  Utf8.isText_of_ascii (Json.isAscii_of_all h)

theorem isText_ofInt (t : Int) : Utf8.IsText (Bytes.ofInt t) := by
  refine Utf8.isText_of_ascii ?_
  rw [Json.ofInt_eq]
  refine Json.isAscii_append.mpr ⟨?_, Json.isAscii_digits fun b => Json.isDigit_of_mem_natText⟩
  split
  · exact Json.isAscii_of_all (by decide)
  · exact Json.isAscii_nil

theorem isText_quoted (s : String) : Utf8.IsText (Json.quoted s) := by
  have hquote : Utf8.IsText [Json.quote] := Utf8.isText_of_ascii (Json.isAscii_of_all (by decide))
  have hbody := Json.isText_of_textOf? (Json.readBody_quotedBody s []) (Json.textOf?_quotedBody s)
  show Utf8.IsText ([Json.quote] ++ Json.quotedBody s ++ [Json.quote])
  exact (hquote.append hbody).append hquote

theorem isText_embed (payload : Bytes) : Utf8.IsText (embed payload) := by
  unfold embed
  split
  next text h =>
    unfold Json.rawValue? at h
    split at h
    · simp only [Option.ite_none_right_eq_some, Option.some.injEq] at h
      obtain ⟨htext, rfl⟩ := h
      exact Utf8.isSome_decode?_iff.mp htext
    · simp at h
  next => exact isText_quoted _

theorem isText_encodeEvent (t : Int) (event : Event) : Utf8.IsText (encodeEvent t event) := by
  have hfront := isText_ofAscii "\x7b\"type\":\"event\",\"timestamp\":" (by decide)
  have hkey := isText_ofAscii ",\"partition_key\":" (by decide)
  have hdata := isText_ofAscii ",\"data\":" (by decide)
  have hend := isText_ofAscii "\x7d" (by decide)
  exact (((((hfront.append (isText_ofInt t)).append hkey).append (isText_quoted _)).append hdata).append
    (isText_embed _)).append hend

theorem isText_encodeWatermark (w : Watermark) : Utf8.IsText (encodeWatermark w) := by
  have hfront := isText_ofAscii "\x7b\"type\":\"watermark\",\"watermark\":" (by decide)
  have hemitted := isText_ofAscii ",\"emitted_at\":" (by decide)
  have hend := isText_ofAscii "\x7d" (by decide)
  exact (((hfront.append (isText_ofInt _)).append hemitted).append (isText_ofInt _)).append hend

/-- The data of a record nest one level less deep than the record. -/
theorem deepest_data_le (t : Int) (event : Event) :
    Json.deepest 1 (Json.dataLexemes event.payload ++ [closing]) ≤
      Json.nesting (encodeEvent t event) := by
  rw [Json.nesting, Json.lex_encodeEvent]
  simp only [Json.eventLexemes, Json.deepest, Json.Token.level, opening, Json.textLexeme, Json.comma,
    Json.colon, Nat.zero_add]
  omega

/-- The record of an event that is read back alone is read in front of anything, with room for the
containers in its data. -/
theorem standsAs_event {t : Int} (ht : Millis.InRange t) {event : Event} {found : List Record} {room : Nat}
    (h : decodeLine (encodeEvent t event) = .ok found)
    (hnests : Json.nesting (encodeEvent t event) ≤ room + 1) :
    ∃ record, found = [record] ∧ StandsAs room (encodeEvent t event) record := by
  obtain ⟨v, data, d, hreads, hsettle, rfl⟩ := (decodeLine_event_eq_ok ht).mp h
  have hdeep := Nat.le_trans (deepest_data_le t event) hnests
  have hreads' : Json.Reads room v [] .value (Json.dataLexemes event.payload) :=
    hreads.room_of_deepest 1 [closing] (by rwa [Nat.add_comm 1 room])
  refine ⟨_, rfl, ⟨braced_encodeEvent t event, isText_encodeEvent t event, fun x => ?_,
    fun depth ls hdepth => ?_⟩⟩
  · rw [Json.lex_encodeEvent_append, Json.lex_encodeEvent, List.cons_append]
  · have hread : Json.readValue room [] .value (Json.dataLexemes event.payload ++ closing :: ls) =
        .ok (v, closing :: ls) := Record.readValue_data_eq_ok.mpr ⟨hreads', rfl⟩
    have hsettled := Json.Value.settle_of_textsBelow hsettle ((textsBelow_data t hreads').mono hdepth)
    rw [Json.lex_encodeEvent, List.cons_append, Record.read_event depth room ht]
    simp only [hread, hsettled]

/-- The record of a watermark is read in front of anything. -/
theorem standsAs_watermark {w : Watermark} (hvalue : Millis.InRange w.value)
    (hemitted : Millis.InRange w.emittedAt) (room : Nat) :
    StandsAs room (encodeWatermark w) (.watermark w.value w.emittedAt) := by
  refine ⟨braced_encodeWatermark w, isText_encodeWatermark w, fun x => ?_, fun depth ls _ => ?_⟩
  · rw [Json.lex_encodeWatermark_append, Json.lex_encodeWatermark, List.cons_append]
  · rw [Json.lex_encodeWatermark, List.cons_append, Record.read_watermark depth room hvalue hemitted]

end EventReplay
