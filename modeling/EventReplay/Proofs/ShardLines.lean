import Mathlib.Data.List.DropRight
import EventReplay.Proofs.LineFraming
import EventReplay.Proofs.UnfinishedLine

/-!
# A shard file that grows by a line

What is written of a line behind the content of a shard file leaves it readable just if the content was
readable, nothing but blanks stood behind its last line feed, and the line is written whole but for its line
feed (`StreamLine.readShard_part`). Then the records of the line come behind those that were there.
-/

set_option autoImplicit false

namespace EventReplay

open Json (Marked Skips)

namespace Bytes

/-! ## What stands behind the last line feed -/

/-- What stands behind the last line feed. -/
def openEnd (s : Bytes) : Bytes := s.rtakeWhile (· ≠ lineFeed)

theorem lineFeed_notMem_openEnd (s : Bytes) : lineFeed ∉ openEnd s := by
  intro h
  simpa using List.mem_rtakeWhile_imp h

theorem openEnd_concat (s : Bytes) : openEnd (s ++ [lineFeed]) = [] :=
  List.rtakeWhile_concat_neg _ _ _ (by simp)

theorem openEnd_append (s : Bytes) {t : Bytes} (h : lineFeed ∉ t) : openEnd (s ++ t) = openEnd s ++ t := by
  rw [openEnd, openEnd, List.rtakeWhile, List.rtakeWhile, List.reverse_append, List.takeWhile_append_of_pos,
    List.reverse_append, List.reverse_reverse]
  intro b hb
  rw [List.mem_reverse] at hb
  simpa using fun heq : b = lineFeed => h (heq ▸ hb)

/-- The lines that are ended, up to the last line feed. -/
def ended (s : Bytes) : Bytes := s.rdropWhile (· ≠ lineFeed)

theorem ended_append_openEnd (s : Bytes) : ended s ++ openEnd s = s := List.rdropWhile_append_rtakeWhile

theorem lines_ended_append (s x : Bytes) : lines (ended s ++ x) = lines (ended s) ++ lines x := by
  induction s using List.reverseRecOn with
  | nil => rfl
  | append_singleton s b ih =>
      by_cases hb : b = lineFeed
      · rw [hb, ended, List.rdropWhile_concat_neg _ _ _ (by simp), List.append_assoc, List.singleton_append,
          lines_append_lineFeed]
      · rw [ended, List.rdropWhile_concat_pos _ _ _ (by simpa using hb)]
        exact ih

theorem lines_of_notMem {s : Bytes} (h : lineFeed ∉ s) (hne : s ≠ []) : lines s = [s] := by
  induction s with
  | nil => exact absurd rfl hne
  | cons b s ih =>
      rw [List.mem_cons, not_or] at h
      rw [lines, if_neg (Ne.symm h.1)]
      by_cases hs : s = []
      · rw [hs]
        rfl
      · rw [ih h.2 hs]

end Bytes

open Bytes (lineFeed openEnd isAsciiBlank)

/-! ## Single lines -/

theorem chopLine_of_notMem {line : Bytes} (h : lineFeed ∉ line) : chopLine line = line := by
  unfold chopLine
  split
  next b rest hreverse =>
    have hb : b ≠ lineFeed := by
      rintro rfl
      exact h (by rw [← List.mem_reverse, hreverse]; exact List.mem_cons_self)
    rw [if_neg hb]
  next hreverse => exact (List.reverse_eq_nil_iff.mp hreverse).symm

/-- A line that is not blank is read as its text. -/
theorem readShardLine_eq_ok {line : Bytes} (h : isBlankShardLine line = false) {found : List Record} :
    readShardLine line = .ok found ↔
      Utf8.IsText (chopLine line) ∧ decodeLine (chopLine line) = .ok found := by
  rw [isBlankShardLine] at h
  rw [readShardLine]
  cases hdecode : Utf8.decode? (chopLine line) with
  | none =>
      have hno : ¬ Utf8.IsText (chopLine line) := by
        rw [← Utf8.isSome_decode?_iff, hdecode]
        simp
      simp [hno]
  | some text =>
      have htext : Utf8.IsText (chopLine line) := by
        rw [← Utf8.isSome_decode?_iff, hdecode]
        rfl
      rw [hdecode, Option.any_some] at h
      cases hread : decodeLine (chopLine line) <;> simp [h, htext]

theorem exists_blank {b : UInt8} (h : isAsciiBlank b = true) :
    ∃ c : Char, b = ascii c ∧ c.toNat < 128 ∧ isBlank c = true := by
  simp only [isAsciiBlank, Bool.or_eq_true, decide_eq_true_eq] at h
  obtain (((rfl | rfl) | rfl) | rfl) | rfl := h
  · exact ⟨' ', by decide, by decide, by decide⟩
  · exact ⟨'\t', by decide, by decide, by decide⟩
  · exact ⟨'\n', by decide, by decide, by decide⟩
  · exact ⟨'\x0C', by decide, by decide, by decide⟩
  · exact ⟨'\r', by decide, by decide, by decide⟩

theorem isText_blank {s : Bytes} (h : ∀ b ∈ s, isAsciiBlank b = true) : Utf8.IsText s := by
  apply Utf8.isText_of_ascii
  intro b hb
  obtain ⟨c, rfl, hc, -⟩ := exists_blank (h b hb)
  exact (Utf8.ofNat_lt_ascii (by omega)).mpr hc

/-- A line of blanks holds no records. -/
theorem readShardLine_blank {line : Bytes} (h : ∀ b ∈ line, isAsciiBlank b = true) (hfeed : lineFeed ∉ line) :
    readShardLine line = .ok [] := by
  obtain ⟨s, rfl⟩ := isText_blank h
  have hall : s.toList.all isBlank = true := by
    rw [List.all_eq_true]
    intro c hc
    obtain ⟨b, tail, hchar, -, -⟩ := Utf8.encodeChar_eq_cons c
    have hmem : b ∈ Utf8.encode s := by
      rw [Utf8.encode, List.mem_flatMap]
      exact ⟨c, hc, by rw [hchar]; exact List.mem_cons_self⟩
    obtain ⟨d, rfl, hd, hblank⟩ := exists_blank (h b hmem)
    have heq : c = d := by
      by_contra hne
      exact Json.ascii_notMem_utf8EncodeChar hd hne (by rw [hchar]; exact List.mem_cons_self)
    rw [heq, hblank]
  rw [readShardLine, chopLine_of_notMem hfeed, Utf8.decode?_encode]
  simp only [hall, if_true]

theorem readShardLines_cons {line : Bytes} {lines : List Bytes} {found : List Record} :
    readShardLines (line :: lines) = .ok found ↔
      ∃ first more, readShardLine line = .ok first ∧ readShardLines lines = .ok more ∧
        found = first ++ more := by
  rw [readShardLines]
  cases readShardLine line with
  | error fault => simp
  | ok first =>
      cases readShardLines lines with
      | error fault => simp
      | ok more => simp [eq_comm]

theorem readShardLines_append {xs ys : List Bytes} {found : List Record} :
    readShardLines (xs ++ ys) = .ok found ↔
      ∃ old new, readShardLines xs = .ok old ∧ readShardLines ys = .ok new ∧ found = old ++ new := by
  induction xs generalizing found with
  | nil => simp [readShardLines]
  | cons x xs ih =>
      rw [List.cons_append, readShardLines_cons]
      constructor
      · rintro ⟨first, more, hx, hmore, rfl⟩
        obtain ⟨old, new, hold, hnew, rfl⟩ := ih.mp hmore
        exact ⟨first ++ old, new, readShardLines_cons.mpr ⟨first, old, hx, hold, rfl⟩, hnew, by simp⟩
      · rintro ⟨old, new, hold, hnew, rfl⟩
        obtain ⟨first, more, hx, hmore, rfl⟩ := readShardLines_cons.mp hold
        exact ⟨first, more ++ new, hx, ih.mpr ⟨more, new, hmore, hnew, rfl⟩, by simp⟩

theorem readShardLines_singleton {line : Bytes} {found : List Record} :
    readShardLines [line] = .ok found ↔ readShardLine line = .ok found := by
  rw [readShardLines_cons]
  simp [readShardLines]

/-! ## A line behind the content of a file -/

/-- The text of a line that a writer of a shard writes, without the line feed. -/
structure StreamLine (text : Bytes) : Prop where
  marked : Marked text
  isText : Utf8.IsText text
  oneLine : lineFeed ∉ text
  closes : ∃ b, text.getLast? = some b ∧ (b = ascii ']' ∨ b = ascii '\x7d')
  whole : Skips [] .value (Json.lex text)
  /-- Nothing depends on how far texts within texts are followed, as long as the line itself is no longer. -/
  deep : ∀ depth found, text.length ≤ depth →
    (Record.ofLexemes depth (Json.lex text) = .ok found ↔ decodeLine text = .ok found)

variable {text : Bytes}

/-- Behind blanks the text is read as alone. -/
theorem StreamLine.decodeLine_append (h : StreamLine text) {q : Bytes} (hq : ∀ b ∈ q, isAsciiBlank b = true)
    {found : List Record} : decodeLine (q ++ text) = .ok found ↔ decodeLine text = .ok found := by
  rw [← h.deep (q ++ text).length found (by simp), decodeLine, dropWhile_append_marked h.marked,
    List.dropWhile_eq_nil_iff.mpr hq, List.nil_append]

/-- What is written of the text behind something else in its line is read just if that is blank and the text
is written whole. -/
theorem StreamLine.decodeLine_part (h : StreamLine text) {q t : Bytes} (ht : t <+: text) (hne : t ≠ [])
    {found : List Record} :
    decodeLine (q ++ t) = .ok found ↔
      (∀ b ∈ q, isAsciiBlank b = true) ∧ t = text ∧ decodeLine text = .ok found := by
  constructor
  · intro hread
    obtain ⟨u, rfl⟩ := ht
    obtain ⟨hq, hu⟩ := whole_of_decodeLine h.marked h.whole hne hread
    -- a text that ends with a bracket does not end with a blank
    have hend : u = [] := by
      by_contra hu'
      obtain ⟨before, b, rfl⟩ := (List.eq_nil_or_concat u).resolve_left hu'
      obtain ⟨c, hc, hbracket⟩ := h.closes
      rw [List.concat_eq_append, ← List.append_assoc, List.getLast?_concat, Option.some.injEq] at hc
      have hblank := hu b (by simp)
      subst hc
      obtain rfl | rfl := hbracket <;> exact absurd hblank (by decide)
    subst hend
    rw [List.append_nil] at h ⊢
    exact ⟨hq, rfl, (h.decodeLine_append hq).mp hread⟩
  · rintro ⟨hq, rfl, hread⟩
    exact (h.decodeLine_append hq).mpr hread

/-- The line of a text, or a part of it, behind something else. -/
theorem StreamLine.readShardLine_part (h : StreamLine text) {q part : Bytes} (hq : lineFeed ∉ q)
    (hpart : part <+: text ++ [lineFeed]) (hne : part ≠ []) {found : List Record} :
    readShardLine (q ++ part) = .ok found ↔
      (∀ b ∈ q, isAsciiBlank b = true) ∧ (part = text ++ [lineFeed] ∨ part = text) ∧
        decodeLine text = .ok found := by
  -- a part starts with a bracket, which is not blank
  have hfull : isBlankShardLine (q ++ part) = false := by
    obtain ⟨c, rest, htext, hc⟩ := h.marked.head
    obtain ⟨d, rest', rfl⟩ := List.exists_cons_of_ne_nil hne
    obtain ⟨more, hmore⟩ := hpart
    rw [htext, List.cons_append, List.cons_append] at hmore
    obtain rfl := (List.cons.inj hmore).1
    have hmem : d ∈ q ++ d :: rest' := by simp
    obtain rfl | rfl := hc
    · exact isBlankShardLine_of_mem (c := '[') (by decide) (by decide) (by decide) (by decide) hmem
    · exact isBlankShardLine_of_mem (c := '\x7b') (by decide) (by decide) (by decide) (by decide) hmem
  obtain ⟨t, hchop, ht, hne', hwhole⟩ : ∃ t, chopLine (q ++ part) = q ++ t ∧ t <+: text ∧ t ≠ [] ∧
      (t = text ↔ part = text ++ [lineFeed] ∨ part = text) := by
    obtain ⟨b, hlast, hb⟩ := h.closes
    have htext : text ≠ [] := by
      rintro rfl
      simp at hlast
    rcases List.prefix_concat_iff.mp hpart with rfl | hshort
    · refine ⟨text, ?_, List.prefix_refl _, htext, by simp⟩
      have hreturn : (q ++ text).getLast? ≠ some 0x0D := by
        rw [List.getLast?_append, hlast, Option.some_or]
        obtain rfl | rfl := hb <;> decide
      rw [← List.append_assoc, chopLine_concat hreturn]
    · have hfeed : lineFeed ∉ part := fun hmem => h.oneLine (hshort.subset hmem)
      refine ⟨part, chopLine_of_notMem (by simp [hq, hfeed]), hshort, hne, ?_⟩
      constructor
      · exact .inr
      · rintro (rfl | rfl)
        · simp at hfeed
        · rfl
  rw [readShardLine_eq_ok hfull, hchop, h.decodeLine_part ht hne', ← hwhole]
  constructor
  · rintro ⟨-, hblank, rfl, hread⟩
    exact ⟨hblank, rfl, hread⟩
  · rintro ⟨hblank, rfl, hread⟩
    exact ⟨(isText_blank hblank).append h.isText, hblank, rfl, hread⟩

/-- What is written of a line behind the content of a file leaves the file readable just if it was readable,
nothing but blanks stood behind its last line feed, and the text of the line is written whole. -/
theorem StreamLine.readShard_part (h : StreamLine text) {content part : Bytes}
    (hpart : part <+: text ++ [lineFeed]) (hne : part ≠ []) {found : List Record} :
    readShard (content ++ part) = .ok found ↔
      ∃ old new, readShard content = .ok old ∧ decodeLine text = .ok new ∧ found = old ++ new ∧
        (∀ b ∈ openEnd content, isAsciiBlank b = true) ∧ (part = text ++ [lineFeed] ∨ part = text) := by
  have hlines := Bytes.lines_ended_append content
  have hfeed := Bytes.lineFeed_notMem_openEnd content
  have hcut := Bytes.ended_append_openEnd content
  generalize openEnd content = q at hcut hfeed ⊢
  generalize Bytes.ended content = ended at hcut hlines
  subst hcut
  have hline : Bytes.lines (q ++ part) = [q ++ part] := by
    rcases List.prefix_concat_iff.mp hpart with rfl | hshort
    · rw [← List.append_assoc, Bytes.lines_append (by simp [hfeed, h.oneLine])]
      rfl
    · exact Bytes.lines_of_notMem (by simpa [hfeed] using fun hmem => h.oneLine (hshort.subset hmem))
        (by simp [hne])
  have hblank : (∀ b ∈ q, isAsciiBlank b = true) → readShardLines (Bytes.lines q) = .ok [] := by
    intro hq
    by_cases hnil : q = []
    · rw [hnil]
      rfl
    · rw [Bytes.lines_of_notMem hfeed hnil, readShardLines_singleton, readShardLine_blank hq hfeed]
  rw [readShard, readShard, List.append_assoc, hlines, hlines, hline, readShardLines_append]
  simp only [readShardLines_append, readShardLines_singleton, h.readShardLine_part hfeed hpart hne]
  constructor
  · rintro ⟨old, new, hold, ⟨hq, hwhole, hnew⟩, rfl⟩
    exact ⟨old, new, ⟨old, [], hold, hblank hq, by simp⟩, hnew, rfl, hq, hwhole⟩
  · rintro ⟨old, new, ⟨old', rest, hold, hrest, rfl⟩, hnew, rfl, hq, hwhole⟩
    obtain rfl : rest = [] := Except.ok.inj (hrest.symm.trans (hblank hq))
    exact ⟨old', new, hold, ⟨hq, hwhole, hnew⟩, by simp⟩

end EventReplay
