import EventReplay.Proofs.IntegerText
import EventReplay.Proofs.ValueText
import EventReplay.Record.Decode
import EventReplay.Record.Encode

/-!
# Reading the record of an event back

The lexemes of an event's record are those of its fields between fixed ones (`lex_encodeEvent`), whatever
the key and the payload hold. So a record that is read back is that event's alone, and its data are the
payload's (`decodeLine_encodeEvent`).
-/

set_option autoImplicit false

namespace EventReplay

open Json (Lexeme Value Need)

namespace Json

/-! ## The lexemes of a record -/

/-- The lexeme of a text. -/
def textLexeme (s : String) : Lexeme := ⟨[], quoted s, .string (quotedBody s)⟩

/-- The lexemes that open and close an object, and those between members and within them. -/
def opening : Lexeme := ⟨[], [ascii '\x7b'], .openObject⟩

@[inherit_doc opening]
def closing : Lexeme := ⟨[], [ascii '\x7d'], .closeObject⟩

@[inherit_doc opening]
def comma : Lexeme := ⟨[], [ascii ','], .comma⟩

@[inherit_doc opening]
def colon : Lexeme := ⟨[], [ascii ':'], .colon⟩

/-- The lexemes of the data. -/
def dataLexemes (payload : Bytes) : List Lexeme :=
  match rawValue? payload with
  | some _ => dropGap (lex payload)
  | none => [textLexeme (Utf8.decodeLossy payload)]

/-- The lexemes of the members of an event's record, up to its end. -/
def eventLexemes (t : Int) (event : Event) : List Lexeme :=
  textLexeme "type" :: colon :: textLexeme "event" ::
  comma :: textLexeme "timestamp" :: colon :: ⟨[], Bytes.ofInt t, .number (numeralOf t)⟩ ::
  comma :: textLexeme "partition_key" :: colon :: textLexeme event.key ::
  comma :: textLexeme "data" :: colon :: (dataLexemes event.payload ++ [closing])

theorem lex_opening (x : Bytes) : lex (ascii '\x7b' :: x) = opening :: lex x :=
  lex_punctuation (by decide) (by decide) x

theorem lex_closing_cons (x : Bytes) : lex (ascii '\x7d' :: x) = closing :: lex x :=
  lex_punctuation (by decide) (by decide) x

theorem lex_closing : lex [ascii '\x7d'] = [closing] := by
  rw [lex_closing_cons, lex_empty]

theorem lex_comma (x : Bytes) : lex (ascii ',' :: x) = comma :: lex x :=
  lex_punctuation (by decide) (by decide) x

theorem lex_colon (x : Bytes) : lex (ascii ':' :: x) = colon :: lex x :=
  lex_punctuation (by decide) (by decide) x

theorem lex_embed (payload : Bytes) {x : Bytes} (hx : Stops x) :
    lex (embed payload ++ x) = dataLexemes payload ++ lex x := by
  rw [embed, dataLexemes]
  cases h : rawValue? payload with
  | none => exact lex_quoted _ x
  | some text =>
    obtain ⟨rfl, hskips⟩ := rawValue?_eq_some h
    exact lex_spell hskips.isGood hx

/-- The record of an event is written member after member. -/
theorem encodeEvent_eq (t : Int) (event : Event) :
    encodeEvent t event =
      ascii '\x7b' :: (quoted "type" ++ ascii ':' :: (quoted "event" ++ ascii ',' ::
        (quoted "timestamp" ++ ascii ':' :: (Bytes.ofInt t ++ ascii ',' ::
          (quoted "partition_key" ++ ascii ':' :: (quoted event.key ++ ascii ',' ::
            (quoted "data" ++ ascii ':' :: (embed event.payload ++ [ascii '\x7d'])))))))) := by
  have hfront : Bytes.ofAscii "\x7b\"type\":\"event\",\"timestamp\":" = ascii '\x7b' ::
      (quoted "type" ++ ascii ':' :: (quoted "event" ++ ascii ',' :: (quoted "timestamp" ++ [ascii ':']))) := by
    decide
  have hkey : Bytes.ofAscii ",\"partition_key\":" = ascii ',' :: (quoted "partition_key" ++ [ascii ':']) := by
    decide
  have hdata : Bytes.ofAscii ",\"data\":" = ascii ',' :: (quoted "data" ++ [ascii ':']) := by decide
  have hend : Bytes.ofAscii "\x7d" = [ascii '\x7d'] := by decide
  rw [encodeEvent, hfront, hkey, hdata, hend]
  simp only [List.append_assoc, List.cons_append, List.nil_append]

/-- The lexemes of an event's record are the same in front of anything. -/
theorem lex_encodeEvent_append (t : Int) (event : Event) (x : Bytes) :
    lex (encodeEvent t event ++ x) = opening :: (eventLexemes t event ++ lex x) := by
  have hcomma : ∀ x, Stops (ascii ',' :: x) := fun x => stops_cons.mpr (by decide)
  have hclosing : Stops (ascii '\x7d' :: x) := stops_cons.mpr (by decide)
  rw [encodeEvent_eq]
  simp only [List.cons_append, List.append_assoc, List.nil_append]
  rw [lex_opening, lex_quoted, lex_colon, lex_quoted, lex_comma, lex_quoted, lex_colon,
    lex_ofInt t (hcomma _), lex_comma, lex_quoted, lex_colon, lex_quoted, lex_comma, lex_quoted, lex_colon,
    lex_embed _ hclosing, lex_closing_cons]
  simp only [eventLexemes, textLexeme, List.cons_append, List.append_assoc, List.nil_append]

theorem lex_encodeEvent (t : Int) (event : Event) :
    lex (encodeEvent t event) = opening :: eventLexemes t event := by
  have h := lex_encodeEvent_append t event []
  rwa [List.append_nil, lex_empty, List.append_nil] at h

end Json

namespace Record

open Json (textLexeme comma colon opening closing)

/-! ## Members -/

variable {room : Nat} {type : Option RecordType} {members : List (String × Value)}

theorem scalarValue_textLexeme (s : String) :
    Json.scalarValue (textLexeme s).token = .ok (.text s) := by
  rw [textLexeme, Json.scalarValue, Json.textOf?_quotedBody]

theorem readMembers_comma (ls : List Lexeme) :
    readMembers room type members .moreMembers (comma :: ls) = readMembers room type members .key ls := by
  rw [readMembers]
  rfl

theorem readMembers_closing (ls : List Lexeme) :
    readMembers room type members .moreMembers (closing :: ls) = .ok ((type, members.reverse), ls) := by
  rw [readMembers]
  rfl

/-- A member is read by its name: the type where it stands, any other as a value. -/
theorem readMembers_name {need : Need} (hneed : need = .firstKey ∨ need = .key) (name : String)
    (ls : List Lexeme) :
    readMembers room type members need (textLexeme name :: colon :: ls) =
      if name = "type" then
        if type.isSome then .error .mismatched
        else
          match readType ls with
          | .error fault => .error fault
          | .ok (type, rest) => readMembers room (some type) members .moreMembers rest
      else
        match Json.readValue room [] .value ls with
        | .error fault => .error fault
        | .ok (v, rest) => readMembers room type ((name, v) :: members) .moreMembers rest := by
  have hmove : Json.move need (textLexeme name).token = .ok .key := by
    obtain rfl | rfl := hneed <;> rfl
  have htext := scalarValue_textLexeme name
  have hcolon : Json.move .colon colon.token = .ok (.separator .value) := rfl
  rw [readMembers, hmove]
  simp only [htext, hcolon]
  split
  · split
    · rfl
    · cases readType ls <;> rfl
  · cases Json.readValue room [] .value ls <;> rfl

/-! ## An event -/

theorem readValue_scalar {l : Lexeme} {v : Value} (hmove : Json.startValue l.token = .ok .scalar)
    (hvalue : Json.scalarValue l.token = .ok v) (ls : List Lexeme) :
    Json.readValue room [] .value (l :: ls) = .ok (v, ls) := by
  rw [Json.readValue, Json.move, hmove]
  simp only [Json.build, hvalue]
  rfl

theorem readType_event (ls : List Lexeme) :
    readType (textLexeme "event" :: ls) = .ok (.event, ls) := by
  have hmove : Json.startValue (textLexeme "event").token = .ok .scalar := rfl
  have hname : RecordType.ofName? "event" = some .event := by decide
  rw [readType, hmove]
  simp only [scalarValue_textLexeme, hname]

/-- All members of an event's record but the data are read as they were written. -/
theorem readMembers_event (room : Nat) {t : Int} (ht : Millis.InRange t) (event : Event)
    (ls : List Lexeme) :
    readMembers room none [] .firstKey (Json.eventLexemes t event ++ ls) =
      match Json.readValue room [] .value (Json.dataLexemes event.payload ++ closing :: ls) with
      | .error fault => .error fault
      | .ok (v, rest) =>
        readMembers room (some .event)
          [("data", v), ("partition_key", .text event.key), ("timestamp", .int t)] .moreMembers rest := by
  have hnumber : Json.scalarValue (.number (Json.numeralOf t)) = .ok (.int t) := by
    rw [Json.scalarValue, Json.value?_numeralOf ht]
  simp only [Json.eventLexemes, List.cons_append, List.append_assoc, List.nil_append]
  rw [readMembers_name (.inl rfl), if_pos rfl]
  simp only [Option.isSome_none, Bool.false_eq_true, if_false, readType_event, readMembers_comma]
  rw [readMembers_name (.inr rfl), if_neg (by decide)]
  rw [readValue_scalar rfl hnumber]
  simp only [readMembers_comma]
  rw [readMembers_name (.inr rfl), if_neg (by decide)]
  rw [readValue_scalar rfl (scalarValue_textLexeme event.key)]
  simp only [readMembers_comma]
  rw [readMembers_name (.inr rfl), if_neg (by decide)]

/-- A value is read from the data alone, whatever they are, and not from what stands behind them. -/
theorem readValue_data_eq_ok {payload : Bytes} {v : Value} {ls rest : List Lexeme} :
    Json.readValue room [] .value (Json.dataLexemes payload ++ closing :: ls) = .ok (v, rest) ↔
      Json.Reads room v [] .value (Json.dataLexemes payload) ∧ rest = closing :: ls := by
  constructor
  · intro h
    have hrest : rest = closing :: ls := by
      rw [Json.dataLexemes] at h
      cases hraw : Json.rawValue? payload with
      | none =>
        rw [hraw, List.singleton_append,
          readValue_scalar rfl (scalarValue_textLexeme (Utf8.decodeLossy payload))] at h
        exact (congrArg Prod.snd (Except.ok.inj h)).symm
      | some text =>
        rw [hraw] at h
        obtain ⟨taken, htaken, hreads⟩ := Json.readValue_eq_ok.mp h
        have hc : Json.Coherent [] .value := rfl
        obtain ⟨-, hskips⟩ := Json.rawValue?_eq_some hraw
        -- the scanner stops where the payload ends
        have hread := Json.skipValue_eq_some.mpr ⟨htaken, hreads.skips hc⟩
        have hscan : Json.skipValue [] .value (Json.dropGap (Json.lex payload) ++ closing :: ls) =
            some (Json.dropGap (Json.lex payload), closing :: ls) :=
          Json.skipValue_eq_some.mpr ⟨rfl, hskips.dropGap⟩
        exact (congrArg Prod.snd (Option.some.inj (hscan.symm.trans hread))).symm
    subst hrest
    obtain ⟨taken, htaken, hreads⟩ := Json.readValue_eq_ok.mp h
    obtain rfl := List.append_cancel_right htaken
    exact ⟨hreads, rfl⟩
  · rintro ⟨hreads, rfl⟩
    exact Json.readValue_eq_ok.mpr ⟨_, rfl, hreads⟩

/-- The record of an event, read from its lexemes, whatever stands behind them. -/
theorem read_event (depth room : Nat) {t : Int} (ht : Millis.InRange t) (event : Event)
    (ls : List Lexeme) :
    read depth room (opening :: (Json.eventLexemes t event ++ ls)) =
      match Json.readValue room [] .value (Json.dataLexemes event.payload ++ closing :: ls) with
      | .error fault => .error fault
      | .ok (v, _) =>
        match v.settle depth with
        | some data => .ok (.event t event.key data, ls)
        | none => .error .mismatched := by
  have hmove : Json.startValue opening.token = .ok (.opening .object) := rfl
  simp only [read, hmove, readMembers_event room ht event]
  cases hdata : Json.readValue room [] .value (Json.dataLexemes event.payload ++ closing :: ls) with
  | error fault => rfl
  | ok found =>
    obtain ⟨v, rest⟩ := found
    obtain ⟨-, rfl⟩ := readValue_data_eq_ok.mp hdata
    have htime : time? (.int t) = some t := by rw [time?, if_pos ht]
    have hmembers : ofMembers? depth .event
        [("timestamp", .int t), ("partition_key", .text event.key), ("data", v)] =
          (v.settle depth).map fun data => .event t event.key data := by
      have hfields : ((fieldNames .event).mapM fun name => field? name
          [("timestamp", .int t), ("partition_key", .text event.key), ("data", v)]) =
            some [.int t, .text event.key, v] := by
        simp [fieldNames, field?]
      rw [ofMembers?, hfields]
      simp only [ofFields?, htime, text?]
      cases v.settle depth <;> rfl
    simp only [readMembers_closing, List.reverse_cons, List.reverse_nil, List.nil_append,
      List.cons_append, hmembers]
    cases v.settle depth <;> rfl

end Record

open Json (opening closing)

theorem decodeLine_event {t : Int} (ht : Millis.InRange t) (event : Event) :
    decodeLine (encodeEvent t event) =
      match Json.readValue (Json.maxDepth - 1) [] .value
        (Json.dataLexemes event.payload ++ [closing]) with
      | .error fault => .error fault
      | .ok (v, _) =>
        match v.settle (encodeEvent t event).length with
        | some data => .ok [.event t event.key data]
        | none => .error .mismatched := by
  have hstart : (encodeEvent t event).dropWhile Bytes.isAsciiBlank = encodeEvent t event := by
    rw [Json.encodeEvent_eq, List.dropWhile_cons_of_neg (by decide)]
  have hopening : opening.token ≠ .openArray := by decide
  have hread := Record.read_event (encodeEvent t event).length (Json.maxDepth - 1) ht event []
  rw [List.append_nil] at hread
  rw [decodeLine, hstart, Json.lex_encodeEvent, Record.ofLexemes]
  simp only [hopening, if_false, hread]
  cases Json.readValue (Json.maxDepth - 1) [] .value
      (Json.dataLexemes event.payload ++ [closing]) with
  | error fault => rfl
  | ok found =>
    cases hsettle : found.1.settle (encodeEvent t event).length <;> simp only [hsettle] <;> rfl

/-- All texts in the data of a record are shorter than the record. -/
theorem textsBelow_data {room : Nat} (t : Int) {event : Event} {v : Value}
    (h : Json.Reads room v [] .value (Json.dataLexemes event.payload)) :
    v.TextsBelow (encodeEvent t event).length := by
  refine h.textsBelow (fun l hl body s => ?_) (by simp)
  refine Json.length_lt_of_mem_lex ?_
  rw [Json.lex_encodeEvent, Json.eventLexemes]
  simp only [List.mem_cons, List.mem_append, hl, true_or, or_true]

/-- A record is read back if its data are read with one level of nesting left for the record, and settled,
however deep texts within texts go. -/
theorem decodeLine_event_eq_ok {t : Int} (ht : Millis.InRange t) {event : Event} {records : List Record} :
    decodeLine (encodeEvent t event) = .ok records ↔
      ∃ v data depth, Json.Reads (Json.maxDepth - 1) v [] .value (Json.dataLexemes event.payload) ∧
        v.settle depth = some data ∧ records = [.event t event.key data] := by
  rw [decodeLine_event ht]
  constructor
  · intro h
    split at h
    · simp at h
    next v rest hread =>
      split at h
      next data hsettle =>
        obtain ⟨hreads, -⟩ := Record.readValue_data_eq_ok.mp hread
        exact ⟨v, data, _, hreads, hsettle, (Except.ok.inj h).symm⟩
      next => simp at h
  · rintro ⟨v, data, depth, hreads, hsettle, rfl⟩
    have hread : Json.readValue (Json.maxDepth - 1) [] .value (Json.dataLexemes event.payload ++ [closing]) =
        .ok (v, [closing]) := Record.readValue_data_eq_ok.mpr ⟨hreads, rfl⟩
    have hsettled := Json.Value.settle_of_textsBelow hsettle (textsBelow_data t hreads)
    simp only [hread, hsettled]

/-- The data of a record, where the payload holds a value for the reader. -/
theorem reads_data_of_read {payload : Bytes} {v : Value} {n : Nat} (h : Value.read payload = .ok v)
    (hnests : v.NestsWithin n) : Json.Reads n v [] .value (Json.dataLexemes payload) := by
  have hdata : Json.dataLexemes payload = Json.dropGap (Json.lex payload) := by
    rw [Json.dataLexemes, Json.rawValue?_of_read h]
  rw [hdata]
  exact ((Json.read_eq_ok.mp h).room hnests).dropGap

/-- A payload that holds a value for the reader is read inside a record as alone, but for one level of
nesting. -/
theorem readValue_data {t : Int} {event : Event} {v : Value} (h : Value.read event.payload = .ok v)
    (hnests : v.NestsWithin (Json.maxDepth - 1)) :
    Json.readValue (Json.maxDepth - 1) [] .value (Json.dataLexemes event.payload ++ [closing]) =
        .ok (v, [closing]) ∧
      v.TextsBelow (encodeEvent t event).length := by
  have hreads := reads_data_of_read h hnests
  exact ⟨Record.readValue_data_eq_ok.mpr ⟨hreads, rfl⟩, textsBelow_data t hreads⟩

/-- A record that is read back is one event with the time and the key that were written, whatever the
payload. The record can be read back, with the payload as a text, if the scanner finds no JSON in it; and
with the value that the payload holds alone, its members settled however deep texts within texts go, if
that value leaves one of the reader's levels of nesting for the record. -/
theorem decodeLine_encodeEvent (t : Int) (event : Event) (ht : Millis.InRange t) :
    (∀ records, decodeLine (encodeEvent t event) = .ok records →
      ∃ data, records = [.event t event.key data]) ∧
    (Json.rawValue? event.payload = none →
      decodeLine (encodeEvent t event) =
        .ok [.event t event.key (.text (Utf8.decodeLossy event.payload))]) ∧
    ∀ v data depth, Value.read event.payload = .ok v → v.NestsWithin 126 →
      v.settle depth = some data →
      decodeLine (encodeEvent t event) = .ok [.event t event.key data] := by
  rw [decodeLine_event ht]
  refine ⟨fun records h => ?_, fun hraw => ?_, fun v data depth hread hnests hsettle => ?_⟩
  · split at h
    · simp at h
    next v rest _ =>
      split at h
      next data _ => exact ⟨data, (Except.ok.inj h).symm⟩
      next => simp at h
  · have hdata : Json.dataLexemes event.payload =
        [Json.textLexeme (Utf8.decodeLossy event.payload)] := by
      rw [Json.dataLexemes, hraw]
    rw [hdata, List.singleton_append,
      Record.readValue_scalar rfl (Record.scalarValue_textLexeme _)]
    simp only [Value.settle]
  · obtain ⟨hdata, hbelow⟩ := readValue_data (t := t) hread hnests
    have hsettled := Json.Value.settle_of_textsBelow hsettle hbelow
    simp only [hdata, hsettled]

theorem decodeLine_encodeEvent_fare :
    decodeLine (encodeEvent 250 ⟨100, "k", Bytes.ofAscii "\x7b\"fare\":12\x7d"⟩) =
        .ok [.event 250 "k" (.object [("fare", .int 12)])] ∧
      decodeLine (encodeEvent 1 ⟨1, "k", Bytes.ofAscii "plain text"⟩) =
        .ok [.event 1 "k" (.text "plain text")] := by
  have hread : Value.read (Bytes.ofAscii "\x7b\"fare\":12\x7d") =
      .ok (.object [("fare", .int 12)]) := by
    have htext : Bytes.ofAscii "\x7b\"fare\":12\x7d" = ascii '\x7b' ::
        (Json.quoted "fare" ++ ascii ':' :: (Bytes.ofInt 12 ++ [ascii '\x7d'])) := by decide
    rw [htext, Value.read, Json.lex_opening, Json.lex_quoted, Json.lex_colon,
      Json.lex_ofInt 12 (Json.stops_cons.mpr (by decide)), Json.lex_closing]
    rfl
  have hnests : (Value.object [("fare", .int 12)]).NestsWithin 126 := .object (by simpa using .int)
  have hsettle : (Value.object [("fare", .int 12)]).settle 0 =
      some (.object [("fare", .int 12)]) := by
    have hkey : "fare" ≠ Json.embeddedKey := by decide
    rw [Json.settle_object hkey]
    simp [Value.settle, Json.settleMembers]
  have hraw : Json.rawValue? (Bytes.ofAscii "plain text") = none := by
    rw [Json.rawValue?, Json.lex_cons rfl]
    rfl
  have htext : Utf8.decodeLossy (Bytes.ofAscii "plain text") = "plain text" := by decide +kernel
  have hplain := (decodeLine_encodeEvent 1 ⟨1, "k", Bytes.ofAscii "plain text"⟩ (by decide)).2.1 hraw
  rw [htext] at hplain
  exact ⟨(decodeLine_encodeEvent 250 _ (by decide)).2.2 _ _ 0 hread hnests hsettle, hplain⟩

end EventReplay
