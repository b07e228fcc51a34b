import EventReplay.Proofs.MarkedText
import EventReplay.Proofs.RecordGrammar

/-!
# Lines that begin in the middle of another

When a record is written behind a part of a line that was never ended, the whole is a line of no record: in
front of a marked text there can be nothing but blanks, and the text itself must be complete
(`Json.blank_of_marked`). This holds of lines of a log (`blank_of_readLogLine`) and of lines of a stream
(`blank_of_decodeLine`).
-/

set_option autoImplicit false

namespace EventReplay

namespace Json

variable {s t u : Bytes} {b : UInt8}

/-! ## Text behind a closing bracket -/

theorem stops_of_isGap (h : isGap b = true) (x : Bytes) : Stops (b :: x) := by
  rw [stops_cons]
  simp only [isGap, Bool.or_eq_true, decide_eq_true_eq] at h
  obtain ((rfl | rfl) | rfl) | rfl := h <;> decide

/-- What is written behind a text that ends with a closing bracket changes none of its lexemes. -/
theorem lex_append_of_closes {before : List Lexeme} {l : Lexeme} (h : lex t = before ++ [l])
    (hgood : ∀ l ∈ lex t, l.token.isGood = true) (hl : l.token = .closeArray ∨ l.token = .closeObject)
    (u : Bytes) :
    ∃ back, lex (t ++ u) = lex t ++ lex (back ++ u) := by
  rw [h, List.forall_mem_append, List.forall_mem_singleton] at hgood
  obtain ⟨rest, rfl, hrest⟩ := exists_lex_eq h
  obtain ⟨back, hread, -⟩ := lex_eq_cons hrest
  obtain ⟨hcut, hgap, hform⟩ := readLexeme_form hread hgood.2
  obtain ⟨-, -, -, -, hagain⟩ := readLexeme_cut hread hgood.2
  have hnumber : l.token.isNumber = false := by obtain hl | hl := hl <;> rw [hl] <;> rfl
  have hstops : ∀ x, Stops (l.gap ++ (l.text ++ x)) := by
    intro x
    cases hgap' : l.gap with
    | cons c gap =>
        rw [List.cons_append]
        exact stops_of_isGap (hgap c (by rw [hgap']; exact List.mem_cons_self)) _
    | nil =>
        obtain ⟨b, htext, hb⟩ := hform.closing hl
        rw [htext, List.nil_append, List.cons_append, stops_cons]
        obtain rfl | rfl := hb <;> decide
  refine ⟨back, ?_⟩
  have hlast := hagain l.gap (back ++ u) hgap (by simp [hnumber])
  rw [h, List.append_assoc, hcut, List.append_assoc, List.append_assoc, lex_append h hgood.1 (hstops _),
    lex_cons hlast, List.append_assoc]
  rfl

/-! ## A marked text behind other bytes -/

theorem lex_of_marked (h : Marked t) :
    ∃ l ls, lex t = l :: ls ∧ (l.token = .openArray ∨ l.token = .openObject) := by
  obtain ⟨c, rest, rfl, rfl | rfl⟩ := h.head
  · exact ⟨_, _, lex_punctuation (by decide) (by decide) _, .inl rfl⟩
  · exact ⟨_, _, lex_punctuation (by decide) (by decide) _, .inr rfl⟩

/-- A container ends with a closing bracket, also inside other containers. -/
theorem Skips.closes_of_opens {opened : List Bracket} {need : Need} {l : Lexeme} {ls : List Lexeme}
    (h : Skips opened need (l :: ls)) (hroot : opened = [] → need = .value)
    (hl : l.token = .openArray ∨ l.token = .openObject) :
    ∃ front last, l :: ls = front ++ [last] ∧ (last.token = .closeArray ∨ last.token = .closeObject) := by
  have hopening : ∀ m, move need l.token = .ok m → ∃ b, m = .opening b := by
    intro m hm
    obtain hl | hl := hl <;> rw [hl] at hm <;> cases need <;>
      simp [move, startValue, startKey] at hm <;> exact ⟨_, hm.symm⟩
  cases h with
  | last hm hlast =>
      obtain ⟨b, rfl⟩ := hopening _ hm
      simp [advance] at hlast
  | next hm hnext hskips =>
      obtain ⟨hne, -⟩ := level_of_advance hroot hm hnext
      obtain ⟨front, last, rfl, hlast⟩ := hskips.closes (fun hnil => absurd hnil hne) hne
      exact ⟨l :: front, last, rfl, hlast⟩

/-- Where a marked text begins a value and ends another, what stands in front of it and what follows it are
blanks. -/
theorem blank_of_marked {p : Bytes} (hmarked : Marked t) (hwhole : Skips [] .value (lex (t ++ u)))
    (h : Skips [] .value (lex (p ++ t))) : (∀ b ∈ p, isGap b = true) ∧ ∀ b ∈ u, isGap b = true := by
  rcases lex_marked hmarked p with ⟨xs, gap, rfl, hgap, hcut⟩ | ⟨bad, hmem, hbad⟩
  · have hsame := tokens_lex_gap hgap t
    obtain ⟨l, ls, hlex, hl⟩ := lex_of_marked hmarked
    rw [hcut] at h
    have hgood : ∀ l ∈ lex t, l.token.isGood = true := by
      intro l hl
      have hmem : l.token ∈ (lex (gap ++ t)).map Lexeme.token := hsame ▸ List.mem_map_of_mem hl
      obtain ⟨l', hl', htoken⟩ := List.mem_map.mp hmem
      rw [← htoken]
      exact h.isGood l' (List.mem_append_right _ hl')
    -- the text is good, starts with a bracket, and so ends with one
    obtain ⟨before, last, hlast, hclose⟩ : ∃ before last, lex t = before ++ [last] ∧
        (last.token = .closeArray ∨ last.token = .closeObject) := by
      cases hgapped : lex (gap ++ t) with
      | nil => simp [hgapped, hlex] at hsame
      | cons l' ls' =>
          rw [hgapped] at hsame h
          have hl' : l'.token = l.token := by
            rw [hlex] at hsame
            exact (List.cons.inj hsame).1
          obtain ⟨opened, need, hskips, hroot, -⟩ := h.split (fun _ => rfl) (List.cons_ne_nil l' ls')
          obtain ⟨front, last', hend, hclose⟩ := hskips.closes_of_opens hroot (hl' ▸ hl)
          obtain ⟨before, last, hlast⟩ := (List.eq_nil_or_concat (lex t)).resolve_left (by simp [hlex])
          rw [List.concat_eq_append] at hlast
          rw [hend, hlast, List.map_append, List.map_append] at hsame
          have htoken : last'.token = last.token := by simpa using (List.append_inj' hsame rfl).2
          exact ⟨before, last, hlast, htoken ▸ hclose⟩
    obtain ⟨back, hsplit⟩ := lex_append_of_closes hlast hgood hclose u
    rw [hsplit] at hwhole
    obtain ⟨rfl, hrest⟩ := hwhole.eq_nil_of_append (by simp [hlex]) h hsame
    exact ⟨by simpa using hgap, (List.forall_mem_append.mp (all_isGap_of_lex_nil hrest)).2⟩
  · rw [h.isGood bad hmem] at hbad
    simp at hbad

end Json

open Json (Marked isGap quote Skips)

/-! ## Lines of a log -/

theorem marked_logLine (event : Event) : Marked (logLine event) :=
  ⟨[], ascii 'i', _, rfl, by simp, by decide⟩

theorem skips_of_readLogLine {line : Bytes} {event : Event} (h : readLogLine line = .ok event) :
    Skips [] .value (Json.lex line) := by
  unfold readLogLine at h
  split at h
  next hfields => exact LogLine.skips_of_readFields hfields
  next => simp at h

/-- The line of an event behind something else is a record only if that is blank. -/
theorem blank_of_readLogLine {event found : Event} (ht : Millis.InRange event.timestamp) {p : Bytes}
    (h : readLogLine (p ++ logLine event) = .ok found) : ∀ b ∈ p, isGap b = true := by
  have hwhole := skips_of_readLogLine (readLogLine_logLine ht)
  rw [← List.append_nil (logLine event)] at hwhole
  exact (Json.blank_of_marked (marked_logLine event) hwhole (skips_of_readLogLine h)).1

/-- Behind blanks it is read as it is. -/
theorem readLogLine_gap {gap : Bytes} (hgap : ∀ b ∈ gap, isGap b = true) (line : Bytes) :
    readLogLine (gap ++ line) = readLogLine line := by
  have hfields : ∀ ls, LogLine.readFields (Json.dropGap ls) = LogLine.readFields ls := by
    intro ls
    cases ls <;> rfl
  rw [readLogLine, readLogLine, ← hfields, Json.lex_gap hgap, hfields]

/-! ## Lines of a stream -/

namespace Json

theorem Marked.append {s : Bytes} (h : Marked s) (x : Bytes) : Marked (s ++ x) := by
  obtain ⟨front, b, w, rfl, hfront, hb⟩ := h
  exact ⟨front, b, w ++ x, by simp, hfront, hb⟩

theorem Marked.inArray {s : Bytes} (h : Marked s) : Marked (ascii '[' :: s) := by
  obtain ⟨front, b, w, rfl, hfront, hb⟩ := h
  exact ⟨ascii '[' :: front, b, w, rfl, List.forall_mem_cons.mpr ⟨rfl, hfront⟩, hb⟩

/-- A beginning of a marked text is marked itself, or too short to hold anything but its brackets, the quote
and the `t`. -/
theorem Marked.beginning {t u : Bytes} (h : Marked (t ++ u)) :
    Marked t ∨ ∀ b ∈ t, b = ascii '[' ∨ b = ascii '\x7b' ∨ b = quote ∨ b = ascii 't' := by
  obtain ⟨front, b, w, hcut, hfront, hb⟩ := h
  have hshort : ∀ c ∈ front ++ [ascii '\x7b', quote, ascii 't'],
      c = ascii '[' ∨ c = ascii '\x7b' ∨ c = quote ∨ c = ascii 't' := by
    intro c hc
    rcases List.mem_append.mp hc with hc | hc
    · exact .inl (hfront c hc)
    · exact .inr (by simpa using hc)
  have hcut' : t ++ u = (front ++ [ascii '\x7b', quote, ascii 't']) ++ b :: w := by
    rw [hcut]
    simp
  rcases List.append_eq_append_iff.mp hcut' with ⟨z, hz, -⟩ | ⟨z, rfl, hz⟩
  · exact .inr fun c hc => hshort c (hz ▸ List.mem_append_left _ hc)
  · cases z with
    | nil => exact .inr (by simpa using hshort)
    | cons d z =>
        obtain ⟨rfl, -⟩ := List.cons.inj hz
        exact .inl ⟨front, b, z, by simp, hfront, hb⟩

end Json

namespace Record

/-- The lexemes of a line of a stream start with a bracket. -/
theorem opens_of_ofLexemes {depth : Nat} {ls : List Json.Lexeme} {found : List Record}
    (h : ofLexemes depth ls = .ok found) :
    ∃ l rest, ls = l :: rest ∧ (l.token = .openArray ∨ l.token = .openObject) := by
  cases ls with
  | nil => simp [ofLexemes] at h
  | cons l ls =>
      refine ⟨l, ls, rfl, ?_⟩
      simp only [ofLexemes] at h
      split at h
      next hl => exact .inl hl
      next hl =>
        right
        have hread : ∃ read', read depth (Json.maxDepth - 1) (l :: ls) = .ok read' := by
          cases hread : read depth (Json.maxDepth - 1) (l :: ls) with
          | error fault => simp [hread, Except.map] at h
          | ok read' => exact ⟨read', rfl⟩
        obtain ⟨read', hread⟩ := hread
        simp only [read] at hread
        cases ht : l.token <;> simp [ht, Json.startValue] at hl hread ⊢
        all_goals split at hread <;> simp at hread

/-- A line of a stream ends with a bracket, or with a blank behind it. -/
theorem last_of_ofLexemes {depth : Nat} {s : Bytes} {found : List Record}
    (h : ofLexemes depth (Json.lex s) = .ok found) :
    ∃ b, s.getLast? = some b ∧ (isGap b = true ∨ b = ascii ']' ∨ b = ascii '\x7d') := by
  have hskips := skips_of_ofLexemes h
  obtain ⟨l, rest, hlex, hl⟩ := opens_of_ofLexemes h
  have hgood := hskips.isGood
  rw [hlex] at hskips hgood
  obtain ⟨before, last, hend, hclose⟩ := hskips.closes_of_opens (fun _ => rfl) hl
  rw [hend] at hlex hgood
  obtain ⟨s', rfl, hs'⟩ := Json.exists_lex_eq hlex
  obtain ⟨back, hread, hback⟩ := Json.lex_eq_cons hs'
  obtain ⟨rfl, -, hform⟩ := Json.readLexeme_form hread (hgood last (by simp))
  obtain ⟨b, htext, hb⟩ := hform.closing hclose
  rw [htext]
  rcases List.eq_nil_or_concat back with rfl | ⟨back', c, rfl⟩
  · refine ⟨b, ?_, .inr hb⟩
    rw [List.append_nil, ← List.append_assoc, List.getLast?_concat]
  · refine ⟨c, ?_, .inl (Json.all_isGap_of_lex_nil hback c (by simp))⟩
    rw [List.concat_eq_append, ← List.append_assoc, ← List.append_assoc, ← List.append_assoc,
      List.getLast?_concat]

end Record

theorem isAsciiBlank_of_isGap {b : UInt8} (h : isGap b = true) : Bytes.isAsciiBlank b = true := by
  simp only [isGap, Bool.or_eq_true, decide_eq_true_eq] at h
  obtain ((rfl | rfl) | rfl) | rfl := h <;> decide

theorem dropWhile_append_marked {t : Bytes} (h : Marked t) (q : Bytes) :
    (q ++ t).dropWhile Bytes.isAsciiBlank = q.dropWhile Bytes.isAsciiBlank ++ t := by
  obtain ⟨c, rest, rfl, hc⟩ := h.head
  have hstart : (c :: rest).dropWhile Bytes.isAsciiBlank = c :: rest :=
    List.dropWhile_cons_of_neg (by obtain rfl | rfl := hc <;> decide)
  rw [List.dropWhile_append, hstart]
  split
  next hempty => rw [List.isEmpty_iff.mp hempty, List.nil_append]
  next => rfl

/-- What is written of a line behind something else is read as records only if that is blank and the line is
written whole. -/
theorem whole_of_decodeLine {q t u : Bytes} (hmarked : Marked (t ++ u))
    (hwhole : Skips [] .value (Json.lex (t ++ u))) (ht : t ≠ []) {found : List Record}
    (h : decodeLine (q ++ t) = .ok found) :
    (∀ b ∈ q, Bytes.isAsciiBlank b = true) ∧ ∀ b ∈ u, isGap b = true := by
  rw [decodeLine] at h
  rcases hmarked.beginning with hmarked' | hshort
  · rw [dropWhile_append_marked hmarked'] at h
    obtain ⟨hq, hu⟩ := Json.blank_of_marked hmarked' hwhole (Record.skips_of_ofLexemes h)
    refine ⟨?_, hu⟩
    rw [← List.takeWhile_append_dropWhile (p := Bytes.isAsciiBlank) (l := q), List.forall_mem_append]
    exact ⟨fun b hb => List.mem_takeWhile_imp hb, fun b hb => isAsciiBlank_of_isGap (hq b hb)⟩
  -- what is too short to be marked does not end with a bracket that closes
  · exfalso
    obtain ⟨b, hlast, hb⟩ := Record.last_of_ofLexemes h
    obtain ⟨x, hx⟩ := List.dropWhile_suffix Bytes.isAsciiBlank (l := q ++ t)
    obtain ⟨before, c, rfl⟩ := (List.eq_nil_or_concat t).resolve_left ht
    have hc := hshort c (by simp)
    have hsame := congrArg List.getLast? hx
    rw [List.getLast?_append, hlast, List.concat_eq_append, ← List.append_assoc, List.getLast?_concat] at hsame
    obtain rfl : b = c := by simpa using hsame
    obtain rfl | rfl | rfl | rfl := hc <;> revert hb <;> decide

end EventReplay
