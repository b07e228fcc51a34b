import EventReplay.Log.Line
import EventReplay.Proofs.RecordContext

/-!
# What a line of a log holds

The payload of an event that is read from a line is a JSON value among the lexemes of the line, spelled as
it stands there (`payload_of_readLogLine`). So it holds a value for the scanner, and no line feed if the
line ends with its only one. A line that is written for an event is read back (`readLogLine_logLine`).
-/

set_option autoImplicit false

namespace EventReplay

open Json (Lexeme Need opening closing comma colon textLexeme)

namespace LogLine

/-! ## Payloads -/

/-- The payload is spelled by lexemes that make a JSON value and are not the last of the line. -/
def HoldsPayload (ls : List Lexeme) (payload : Bytes) : Prop :=
  ∃ before taken after, ls = before ++ (taken ++ after) ∧ after ≠ [] ∧ Json.Skips [] .value taken ∧
    payload = Json.spell taken ∧ Utf8.IsText payload

/-- All payloads among the fields are held by a line. -/
def Fields.From (fields : Fields) (ls : List Lexeme) : Prop :=
  ∀ payload, fields.payload = some payload → HoldsPayload ls payload

theorem readPayload_eq_some {ls rest : List Lexeme} {payload : Bytes} :
    readPayload ls = some (payload, rest) ↔
      ∃ taken, ls = taken ++ rest ∧ Json.Skips [] .value taken ∧ payload = Json.spell taken ∧
        Utf8.IsText payload := by
  rw [readPayload]
  constructor
  · intro h
    split at h
    next taken rest' hskip =>
      simp only [Option.ite_none_right_eq_some, Option.some.injEq, Prod.mk.injEq] at h
      obtain ⟨htext, rfl, rfl⟩ := h
      obtain ⟨rfl, hskips⟩ := Json.skipValue_eq_some.mp hskip
      exact ⟨taken, rfl, hskips, rfl, Utf8.isSome_decode?_iff.mp htext⟩
    next => simp at h
  · rintro ⟨taken, rfl, hskips, rfl, htext⟩
    rw [Json.skipValue_eq_some.mpr ⟨rfl, hskips⟩]
    simp only [Utf8.isSome_decode?_iff.mpr htext, if_true]

/-- A time is one lexeme. -/
theorem readTime_cut {ls rest : List Lexeme} {time : Time} (h : readTime ls = some (time, rest)) :
    ∃ l, ls = l :: rest := by
  cases ls with
  | nil => simp [readTime] at h
  | cons l ls =>
    rw [readTime] at h
    split at h
    next =>
      split at h
      next =>
        rw [Option.ite_none_right_eq_some] at h
        obtain ⟨-, heq⟩ := h
        cases heq
        exact ⟨l, rfl⟩
      next => simp at h
    next =>
      obtain ⟨s, -, heq⟩ := Option.map_eq_some_iff.mp h
      cases heq
      exact ⟨l, rfl⟩
    next => simp at h

/-- A key is one lexeme. -/
theorem readKey_cut {ls rest : List Lexeme} {key : Option String} (h : readKey ls = some (key, rest)) :
    ∃ l, ls = l :: rest := by
  cases ls with
  | nil => simp [readKey] at h
  | cons l ls =>
    rw [readKey] at h
    split at h
    next =>
      cases h
      exact ⟨l, rfl⟩
    next =>
      obtain ⟨s, -, heq⟩ := Option.map_eq_some_iff.mp h
      cases heq
      exact ⟨l, rfl⟩
    next => simp at h

/-- The value of a member is cut off, and is the payload if the member is. -/
theorem readMember_cut {fields fields' : Fields} {name : String} {ls rest : List Lexeme}
    (h : readMember fields name ls = some (fields', rest)) :
    ∃ taken, ls = taken ++ rest ∧
      (fields'.payload = fields.payload ∨
        ∃ payload, fields'.payload = some payload ∧ Json.Skips [] .value taken ∧
          payload = Json.spell taken ∧ Utf8.IsText payload) := by
  rw [readMember] at h
  split at h
  · rw [Option.ite_none_left_eq_some] at h
    obtain ⟨-, h⟩ := h
    obtain ⟨⟨time, rest'⟩, htime, heq⟩ := Option.map_eq_some_iff.mp h
    cases heq
    obtain ⟨l, rfl⟩ := readTime_cut htime
    exact ⟨[l], rfl, .inl rfl⟩
  split at h
  · rw [Option.ite_none_left_eq_some] at h
    obtain ⟨-, h⟩ := h
    obtain ⟨⟨key, rest'⟩, hkey, heq⟩ := Option.map_eq_some_iff.mp h
    cases heq
    obtain ⟨l, rfl⟩ := readKey_cut hkey
    exact ⟨[l], rfl, .inl rfl⟩
  split at h
  · rw [Option.ite_none_left_eq_some] at h
    obtain ⟨-, h⟩ := h
    obtain ⟨⟨payload, rest'⟩, hpayload, heq⟩ := Option.map_eq_some_iff.mp h
    cases heq
    obtain ⟨taken, rfl, hskips, hspell, htext⟩ := readPayload_eq_some.mp hpayload
    exact ⟨taken, rfl, .inr ⟨payload, rfl, hskips, hspell, htext⟩⟩
  · obtain ⟨⟨taken, rest'⟩, hskip, heq⟩ := Option.map_eq_some_iff.mp h
    cases heq
    exact ⟨taken, (Json.skipValue_eq_some.mp hskip).1, .inl rfl⟩

/-- Members of a line, read up to its end, bring no payload that the line does not hold. -/
theorem readMembers_from {fuel : Nat} {fields fields' : Fields} {need : Need}
    {all before ls rest : List Lexeme} (h : readMembers fuel fields need ls = some (fields', rest))
    (hall : all = before ++ ls) (hfields : fields.From all) : fields'.From all := by
  fun_induction readMembers fuel fields need ls generalizing before with
  | case1 => simp at h
  | case2 => simp at h
  | case3 fuel fields need l ls hmove =>
    cases h
    exact hfields
  | case4 fuel fields need l ls next hmove ih =>
    have hall' : all = (before ++ [l]) ++ ls := by
      rw [hall, List.append_assoc, List.singleton_append]
    exact ih h hall' hfields
  -- a member: its name, the colon, and its value, behind which the end is still to come
  | case5 fuel fields need l body htoken hmove name colon ls hname hcolon fields₁ rest₁ hmember ih =>
    obtain ⟨taken, rfl, hpayload⟩ := readMember_cut hmember
    have hcut : all = (before ++ [l, colon]) ++ (taken ++ rest₁) := by
      rw [hall, List.append_assoc]
      rfl
    have hrest : rest₁ ≠ [] := by
      rintro rfl
      cases fuel <;> simp [readMembers] at h
    refine ih h (hcut.trans (List.append_assoc ..).symm) ?_
    intro payload hsome
    rcases hpayload with hsame | ⟨payload', hsome', hskips, hspell, htext⟩
    · exact hfields payload (hsame ▸ hsome)
    · obtain rfl : payload' = payload := Option.some.inj (hsome'.symm.trans hsome)
      exact ⟨_, taken, rest₁, hcut, hrest, hskips, hspell, htext⟩
  | _ => simp at h

/-- So do the items of a line. -/
theorem readItems_from {fields : Fields} {all before ls rest : List Lexeme}
    (h : readItems ls = some (fields, rest)) (hall : all = before ++ ls) : fields.From all := by
  simp only [readItems, Option.bind_eq_bind, Option.bind_eq_some_iff, Prod.exists] at h
  obtain ⟨time, ls₁, htime, ls₂, hcomma₁, key, ls₃, hkey, ls₄, hcomma₂, payload, ls₅, hpayload, hend⟩ := h
  obtain ⟨l₁, rfl⟩ := readTime_cut htime
  obtain ⟨c₁, rfl⟩ : ∃ c, ls₁ = c :: ls₂ := by
    split at hcomma₁
    next c rest' =>
      rw [Option.ite_none_right_eq_some] at hcomma₁
      exact ⟨c, congrArg _ (Option.some.inj hcomma₁.2)⟩
    next => simp at hcomma₁
  obtain ⟨l₂, rfl⟩ := readKey_cut hkey
  obtain ⟨c₂, rfl⟩ : ∃ c, ls₃ = c :: ls₄ := by
    split at hcomma₂
    next c rest' =>
      rw [Option.ite_none_right_eq_some] at hcomma₂
      exact ⟨c, congrArg _ (Option.some.inj hcomma₂.2)⟩
    next => simp at hcomma₂
  obtain ⟨taken, rfl, hskips, hspell, htext⟩ := readPayload_eq_some.mp hpayload
  split at hend
  next l ls' =>
    rw [Option.ite_none_right_eq_some] at hend
    cases hend.2
    intro payload' hsome
    obtain rfl : payload = payload' := Option.some.inj hsome
    refine ⟨before ++ [l₁, c₁, l₂, c₂], taken, l :: rest, ?_, List.cons_ne_nil l rest, hskips, hspell, htext⟩
    rw [hall, List.append_assoc]
    rfl
  next => simp at hend

/-- All that is read of a line comes from it. -/
theorem readFields_from {ls : List Lexeme} {fields : Fields} (h : readFields ls = some fields) :
    fields.From ls := by
  cases ls with
  | nil => simp [readFields] at h
  | cons l ls =>
    have hall : l :: ls = [l] ++ ls := rfl
    simp only [readFields] at h
    split at h
    next fields' hrecord =>
      cases h
      split at hrecord
      next =>
        exact readMembers_from hrecord hall (fun payload hsome => by simp at hsome)
      next => exact readItems_from hrecord hall
      next => simp at hrecord
    next => simp at h

end LogLine

/-- The payload of an event stands in its line. -/
theorem payload_of_readLogLine {line : Bytes} {event : Event} (h : readLogLine line = .ok event) :
    LogLine.HoldsPayload (Json.lex line) event.payload := by
  unfold readLogLine at h
  split at h
  next time key payload hfields =>
    have hpayload := LogLine.readFields_from hfields payload rfl
    dsimp only at h
    split at h
    next =>
      cases h
      exact hpayload
    next =>
      split at h
      next =>
        cases h
        exact hpayload
      next => simp at h
  next => simp at h

namespace LogLine

/-- What a line holds as a payload, the scanner takes as it stands. -/
theorem HoldsPayload.rawValue? {line payload : Bytes} (h : HoldsPayload (Json.lex line) payload) :
    Json.rawValue? payload = some payload := by
  obtain ⟨before, taken, after, hline, -, hskips, rfl, htext⟩ := h
  have hlex : Json.lex (Json.spell taken) = Json.dropGap taken := by
    have hspell := Json.lex_spell_of_infix hline hskips.isGood Json.stops_nil
    rwa [Json.lex_empty, List.append_nil, List.append_nil] at hspell
  have hskip : Json.skipValue [] .value (Json.dropGap taken) = some (Json.dropGap taken, []) :=
    Json.skipValue_eq_some.mpr ⟨(List.append_nil _).symm, hskips.dropGap⟩
  have hsame : Json.spell (Json.dropGap taken) = Json.spell taken := by
    cases taken <;> rfl
  rw [Json.rawValue?, hlex, hskip]
  simp only [hsame, Utf8.isSome_decode?_iff.mpr htext, if_true]

/-- A payload holds no line feed if there is none in its line but at the end. -/
theorem HoldsPayload.lineFeed_notMem {line body payload : Bytes}
    (h : HoldsPayload (Json.lex line) payload) (hbody : Bytes.lineFeed ∉ body)
    (hline : line = body ∨ line = body ++ [Bytes.lineFeed]) : Bytes.lineFeed ∉ payload := by
  obtain ⟨before, taken, after, hlex, hafter, -, rfl, -⟩ := h
  rw [← List.append_assoc] at hlex
  obtain ⟨rest, hcut, hrest⟩ := Json.exists_lex_eq hlex
  have hne : rest ≠ [] := by
    rintro rfl
    exact hafter (hrest.symm.trans Json.lex_empty)
  -- what stands in front of other lexemes stands in front of the last byte
  have hfront : ∃ back, body = (before ++ taken).flatMap Json.Lexeme.bytes ++ back := by
    rcases hline with rfl | rfl
    · exact ⟨rest, hcut⟩
    · rcases List.eq_nil_or_concat rest with hnil | ⟨back, b, rfl⟩
      · exact absurd hnil hne
      · rw [List.concat_eq_append, ← List.append_assoc] at hcut
        exact ⟨back, (List.append_inj' hcut rfl).1⟩
  obtain ⟨back, rfl⟩ := hfront
  intro hmem
  obtain ⟨l, hl, hb⟩ := Json.exists_mem_of_mem_spell hmem
  have hin : l ∈ before ++ taken := List.mem_append_right _ hl
  exact hbody (List.mem_append_left _ (List.mem_flatMap.mpr ⟨l, hin, hb⟩))

end LogLine

/-! ## Lines that are written -/

/-- The line of an event without the line feed that ends it. -/
def logText (event : Event) : Bytes :=
  Bytes.ofAscii "\x7b\"timestamp\":" ++ Bytes.ofInt event.timestamp ++
  Bytes.ofAscii ",\"partition_key\":" ++ Json.quoted event.key ++
  Bytes.ofAscii ",\"payload\":" ++ embed event.payload ++ Bytes.ofAscii "\x7d"

theorem logLine_eq (event : Event) : logLine event = logText event ++ [Bytes.lineFeed] := rfl

theorem braced_logText (event : Event) : (logText event).Braced := ⟨rfl, List.getLast?_concat⟩

/-- The line of an event is written member after member. -/
theorem logText_eq (event : Event) :
    logText event = ascii '\x7b' :: (Json.quoted "timestamp" ++ ascii ':' ::
      (Bytes.ofInt event.timestamp ++ ascii ',' :: (Json.quoted "partition_key" ++ ascii ':' ::
        (Json.quoted event.key ++ ascii ',' :: (Json.quoted "payload" ++ ascii ':' ::
          (embed event.payload ++ [ascii '\x7d'])))))) := by
  have hfront : Bytes.ofAscii "\x7b\"timestamp\":" =
      ascii '\x7b' :: (Json.quoted "timestamp" ++ [ascii ':']) := by decide
  have hkey : Bytes.ofAscii ",\"partition_key\":" =
      ascii ',' :: (Json.quoted "partition_key" ++ [ascii ':']) := by decide
  have hpayload : Bytes.ofAscii ",\"payload\":" = ascii ',' :: (Json.quoted "payload" ++ [ascii ':']) := by
    decide
  have hend : Bytes.ofAscii "\x7d" = [ascii '\x7d'] := by decide
  rw [logText, hfront, hkey, hpayload, hend]
  simp only [List.append_assoc, List.cons_append, List.nil_append]

/-- The lexemes of the members of an event's line, up to its end. -/
def logLexemes (event : Event) : List Lexeme :=
  textLexeme "timestamp" :: colon ::
    ⟨[], Bytes.ofInt event.timestamp, .number (Json.numeralOf event.timestamp)⟩ ::
  comma :: textLexeme "partition_key" :: colon :: textLexeme event.key ::
  comma :: textLexeme "payload" :: colon :: (Json.dataLexemes event.payload ++ [closing])

theorem lex_logLine (event : Event) : Json.lex (logLine event) = opening :: logLexemes event := by
  have hcomma : ∀ x, Json.Stops (ascii ',' :: x) := fun x => Json.stops_cons.mpr (by decide)
  have hclosing : ∀ x, Json.Stops (ascii '\x7d' :: x) := fun x => Json.stops_cons.mpr (by decide)
  have hend : Json.lex [Bytes.lineFeed] = [] := Json.lex_nil (by decide)
  rw [logLine_eq, logText_eq]
  simp only [List.cons_append, List.append_assoc, List.nil_append]
  rw [Json.lex_opening, Json.lex_quoted, Json.lex_colon, Json.lex_ofInt _ (hcomma _), Json.lex_comma,
    Json.lex_quoted, Json.lex_colon, Json.lex_quoted, Json.lex_comma, Json.lex_quoted, Json.lex_colon,
    Json.lex_embed _ (hclosing _), Json.lex_closing_cons, hend]
  rfl

/-- A payload is spelled by its lexemes in a record, which make a JSON value. -/
theorem embed_eq_spell (payload : Bytes) :
    Json.Skips [] .value (Json.dataLexemes payload) ∧
      embed payload = Json.spell (Json.dataLexemes payload) := by
  rw [embed, Json.dataLexemes]
  cases h : Json.rawValue? payload with
  | none => exact ⟨.last (m := .scalar) rfl rfl, (List.append_nil _).symm⟩
  | some text =>
    obtain ⟨rfl, hskips⟩ := Json.rawValue?_eq_some h
    refine ⟨hskips.dropGap, ?_⟩
    show Json.spell (Json.lex payload) = Json.spell (Json.dropGap (Json.lex payload))
    cases Json.lex payload <;> rfl

namespace LogLine

/-- A member is read by its name. -/
theorem readMembers_name (fuel : Nat) (fields : Fields) {need : Need}
    (hneed : need = .firstKey ∨ need = .key) (name : String) (ls : List Lexeme) :
    readMembers (fuel + 1) fields need (textLexeme name :: colon :: ls) =
      match readMember fields name ls with
      | some (fields, rest) => readMembers fuel fields .moreMembers rest
      | none => none := by
  have hmove : Json.move need (textLexeme name).token = .ok .key := by
    obtain rfl | rfl := hneed <;> rfl
  have htoken : (textLexeme name).token = .string (Json.quotedBody name) := rfl
  have hcolon : colon.token = .colon := rfl
  rw [readMembers, hmove, htoken]
  cases hmember : readMember fields name ls <;>
    simp only [Json.textOf?_quotedBody, hcolon, hmember, if_true]

theorem readMembers_comma (fuel : Nat) (fields : Fields) (ls : List Lexeme) :
    readMembers (fuel + 1) fields .moreMembers (comma :: ls) = readMembers fuel fields .key ls := rfl

theorem readMembers_closing (fuel : Nat) (fields : Fields) (ls : List Lexeme) :
    readMembers (fuel + 1) fields .moreMembers (closing :: ls) = some (fields, ls) := rfl

/-- The fields of an event are read back from its line. -/
theorem readFields_logLexemes {event : Event} (ht : Millis.InRange event.timestamp) :
    readFields (opening :: logLexemes event) =
      some ⟨some (.millis event.timestamp), some (some event.key), some (embed event.payload)⟩ := by
  have htime : ∀ ls, readTime (⟨[], Bytes.ofInt event.timestamp,
      .number (Json.numeralOf event.timestamp)⟩ :: ls) = some (.millis event.timestamp, ls) := by
    intro ls
    simp only [readTime, Json.value?_numeralOf ht, ht, if_true]
  have hkey : ∀ ls, readKey (textLexeme event.key :: ls) = some (some event.key, ls) := by
    intro ls
    simp only [readKey, textLexeme, Json.textOf?_quotedBody, Option.map_some]
  have hpayload : readPayload (Json.dataLexemes event.payload ++ [closing]) =
      some (embed event.payload, [closing]) := by
    obtain ⟨hskips, hspell⟩ := embed_eq_spell event.payload
    exact readPayload_eq_some.mpr ⟨_, rfl, hskips, hspell, isText_embed _⟩
  obtain ⟨fuel, hfuel⟩ : ∃ fuel, (logLexemes event).length + 1 = fuel + 6 :=
    ⟨(logLexemes event).length - 5, by simp only [logLexemes, List.length_cons]; omega⟩
  have hmembers : readMembers ((logLexemes event).length + 1) {} .firstKey (logLexemes event) =
      some (⟨some (.millis event.timestamp), some (some event.key), some (embed event.payload)⟩, []) := by
    rw [hfuel, logLexemes, readMembers_name _ _ (.inl rfl)]
    simp only [readMember, if_true, Option.isSome_none, Bool.false_eq_true, if_false, htime,
      Option.map_some]
    rw [readMembers_comma, readMembers_name _ _ (.inr rfl)]
    simp only [readMember, String.reduceEq, if_true, Option.isSome_none, Bool.false_eq_true, if_false, hkey,
      Option.map_some]
    rw [readMembers_comma, readMembers_name _ _ (.inr rfl)]
    simp only [readMember, String.reduceEq, if_true, Option.isSome_none, Bool.false_eq_true, if_false,
      hpayload, Option.map_some]
    rw [readMembers_closing]
  have hopening : opening.token = .openObject := rfl
  simp only [readFields, hopening, hmembers]

end LogLine

/-- The line that is written for an event is read back as the event, with the payload as it is embedded. -/
theorem readLogLine_logLine {event : Event} (ht : Millis.InRange event.timestamp) :
    readLogLine (logLine event) = .ok { event with payload := embed event.payload } := by
  rw [readLogLine, lex_logLine, LogLine.readFields_logLexemes ht]
  rfl

end EventReplay
