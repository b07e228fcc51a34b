import EventReplay.Proofs.LexemeSpan
import EventReplay.Record.Encode

/-!
# Records are lines

The record of an event holds no line feed unless the payload does (`lineFeed_notMem_encodeEvent`), and
that of a watermark holds none, so that records can be lines of a file or parts of lines: bytes that are
made of lines have just these lines (`Bytes.lines_flatten`).
-/

set_option autoImplicit false

namespace EventReplay

namespace Bytes

/-! ## Lines -/

/-- Bytes up to a line feed. -/
def IsLine (line : Bytes) : Prop := ∃ body, line = body ++ [lineFeed] ∧ lineFeed ∉ body

theorem lines_append {body : Bytes} (h : lineFeed ∉ body) (rest : Bytes) :
    lines (body ++ lineFeed :: rest) = (body ++ [lineFeed]) :: lines rest := by
  induction body with
  | nil => simp [lines]
  | cons b body ih =>
      obtain ⟨hb, hbody⟩ := not_or.mp (mt List.mem_cons.mpr h)
      simp only [List.cons_append, lines, if_neg (Ne.symm hb), ih hbody]

/-- Bytes that are made of lines have just these lines. -/
theorem lines_flatten {ls : List Bytes} (h : ∀ line ∈ ls, IsLine line) : lines ls.flatten = ls := by
  induction ls with
  | nil => rfl
  | cons line ls ih =>
      obtain ⟨body, rfl, hbody⟩ := h line (.head _)
      rw [List.flatten_cons, List.append_assoc, List.singleton_append, lines_append hbody,
        ih fun line hline => h line (.tail _ hline)]

/-- A line feed is in a line at its end only. -/
theorem cut_of_mem_lines {s line : Bytes} (h : line ∈ lines s) :
    ∃ body, lineFeed ∉ body ∧ (line = body ∨ line = body ++ [lineFeed]) := by
  induction s generalizing line with
  | nil => simp [lines] at h
  | cons b s ih =>
      rw [lines] at h
      split at h
      next hb =>
        rcases List.mem_cons.mp h with rfl | hmem
        · exact ⟨[], List.not_mem_nil, .inr (by rw [hb]; rfl)⟩
        · exact ih hmem
      next hb =>
        have hcons : ∀ body : Bytes, lineFeed ∉ body → lineFeed ∉ b :: body := fun body hbody =>
          by simpa [Ne.symm hb] using hbody
        split at h
        next hlines =>
          obtain rfl := List.mem_singleton.mp h
          exact ⟨[b], hcons [] List.not_mem_nil, .inl rfl⟩
        next first more hlines =>
          rcases List.mem_cons.mp h with rfl | hmem
          · have hfirst : first ∈ lines s := hlines ▸ List.mem_cons_self
            obtain ⟨body, hbody, rfl | rfl⟩ := ih hfirst
            · exact ⟨b :: first, hcons first hbody, .inl rfl⟩
            · exact ⟨b :: body, hcons body hbody, .inr rfl⟩
          · exact ih (hlines ▸ List.mem_cons_of_mem _ hmem)

/-! ## Numbers -/

theorem ofNat_ne_lineFeed {n : Nat} (h : n % 256 ≠ 10) : UInt8.ofNat n ≠ lineFeed := by
  intro heq
  have hnat := congrArg UInt8.toNat heq
  rw [UInt8.toNat_ofNat'] at hnat
  exact h hnat

theorem lineFeed_notMem_ofNat (n : Nat) : lineFeed ∉ ofAscii (toString n) := by
  intro hmem
  obtain ⟨c, hc, heq⟩ := List.mem_map.mp hmem
  have hdigit : c.isDigit := by
    refine Nat.isDigit_of_mem_toDigits (b := 10) (by decide) (by decide) (n := n) ?_
    simpa [Nat.repr, toString] using hc
  simp only [Char.isDigit, Bool.and_eq_true, decide_eq_true_eq, UInt32.le_iff_toNat_le] at hdigit
  refine ofNat_ne_lineFeed ?_ heq
  have hlow : ('0' : Char).val.toNat = 48 := rfl
  have hhigh : ('9' : Char).val.toNat = 57 := rfl
  show c.val.toNat % 256 ≠ 10
  omega

/-- Decimal text is in one line. -/
theorem lineFeed_notMem_ofInt (n : Int) : lineFeed ∉ ofInt n := by
  cases n with
  | ofNat n => exact lineFeed_notMem_ofNat n
  | negSucc n =>
      have htext : ofInt (Int.negSucc n) = ascii '-' :: ofAscii (toString (n + 1)) := by
        simp [ofInt, ofAscii, toString, Int.repr]
      rw [htext]
      intro hmem
      rcases List.mem_cons.mp hmem with h | h
      · exact absurd h (by decide)
      · exact lineFeed_notMem_ofNat (n + 1) h

end Bytes

/-! ## Quoted text -/

open Bytes

namespace Json

/-- The bytes of a character hold no other ASCII character. -/
theorem ascii_notMem_utf8EncodeChar {c d : Char} (hd : d.toNat < 128) (hc : c ≠ d) :
    ascii d ∉ String.utf8EncodeChar c := by
  obtain ⟨n, hn⟩ : ∃ n, n = c.toNat := ⟨_, rfl⟩
  have hval : c.val.toNat = n := hn.symm
  have hne : n ≠ d.toNat := fun h => hc (Char.toNat_inj.mp (hn ▸ h))
  have hbyte {m : Nat} (h : m % 256 ≠ d.toNat) : ascii d ≠ UInt8.ofNat m := by
    intro heq
    have hnat := congrArg UInt8.toNat heq
    rw [ascii, UInt8.toNat_ofNat', UInt8.toNat_ofNat'] at hnat
    omega
  -- the bytes of a longer sequence are all above 127
  rw [String.utf8EncodeChar.eq_1, hval]
  repeat' split
  all_goals simp only [List.mem_cons, List.not_mem_nil, or_false, not_or]
  · exact hbyte (by omega)
  · exact ⟨hbyte (by omega), hbyte (by omega)⟩
  · exact ⟨hbyte (by omega), hbyte (by omega), hbyte (by omega)⟩
  · exact ⟨hbyte (by omega), hbyte (by omega), hbyte (by omega), hbyte (by omega)⟩

theorem hexDigit_ne_lineFeed : ∀ n < 16, lineFeed ≠ hexDigit n := by decide

theorem lineFeed_notMem_quoteChar (c : Char) : lineFeed ∉ quoteChar c := by
  unfold quoteChar
  repeat' split
  -- a control character is spelled in hexadecimal digits
  case isFalse.isFalse.isFalse.isFalse.isFalse.isFalse.isFalse.isTrue =>
    simp only [List.mem_cons, List.not_mem_nil, or_false, not_or]
    exact ⟨by decide, by decide, by decide, by decide, hexDigit_ne_lineFeed _ (by omega),
      hexDigit_ne_lineFeed _ (Nat.mod_lt _ (by decide))⟩
  case isFalse.isFalse.isFalse.isFalse.isFalse.isFalse.isFalse.isFalse =>
    exact ascii_notMem_utf8EncodeChar (d := '\n') (by decide) (by assumption)
  all_goals decide

theorem lineFeed_notMem_quoted (s : String) : lineFeed ∉ quoted s := by
  have hquote : lineFeed ≠ quote := by decide
  simp only [quoted, List.mem_append, List.mem_cons, List.mem_flatMap, List.not_mem_nil, or_false,
    hquote, false_or, not_exists, not_and]
  intro c _
  exact lineFeed_notMem_quoteChar c

end Json

/-! ## Records -/

theorem lineFeed_notMem_embed {payload : Bytes} (h : lineFeed ∉ payload) :
    lineFeed ∉ embed payload := by
  unfold embed
  split
  · rename_i text htext
    intro hmem
    exact h (Json.mem_of_rawValue? htext hmem)
  · exact Json.lineFeed_notMem_quoted _

/-- The record of an event is in one line if the payload is. -/
theorem lineFeed_notMem_encodeEvent (outbound : Int) {event : Event}
    (h : lineFeed ∉ event.payload) : lineFeed ∉ encodeEvent outbound event := by
  simp only [encodeEvent, List.mem_append, not_or]
  exact ⟨⟨⟨⟨⟨⟨by decide, lineFeed_notMem_ofInt outbound⟩, by decide⟩,
    Json.lineFeed_notMem_quoted event.key⟩, by decide⟩, lineFeed_notMem_embed h⟩, by decide⟩

/-- The record of a watermark is in one line. -/
theorem lineFeed_notMem_encodeWatermark (w : Watermark) : lineFeed ∉ encodeWatermark w := by
  simp only [encodeWatermark, List.mem_append, not_or]
  exact ⟨⟨⟨⟨by decide, lineFeed_notMem_ofInt w.value⟩, by decide⟩, lineFeed_notMem_ofInt w.emittedAt⟩,
    by decide⟩

end EventReplay
