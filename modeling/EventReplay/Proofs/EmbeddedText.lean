import Mathlib.Data.List.DropRight
import EventReplay.Proofs.LogLineReading
import EventReplay.Proofs.TokenForms

/-!
# Payloads as they are embedded

A payload that the scanner takes stands in a record as it is but for the blanks around it
(`Json.trimmed_of_rawValue?`), and what stands in a record stands there unchanged when it is embedded
again (`embed_embed`).
-/

set_option autoImplicit false

namespace EventReplay

namespace Json

/-! ## Payloads without the blanks around them -/

/-- Bytes without the blanks at both ends. -/
def trimmed (s : Bytes) : Bytes := (s.dropWhile isGap).rdropWhile isGap

theorem trimmed_eq {gap text back : Bytes} (hgap : ∀ b ∈ gap, isGap b = true)
    (hback : ∀ b ∈ back, isGap b = true) (hfirst : ∃ b tail, text = b :: tail ∧ isGap b = false)
    (hlast : ∃ front b, text = front ++ [b] ∧ isGap b = false) :
    trimmed (gap ++ (text ++ back)) = text := by
  obtain ⟨b, tail, htext, hb⟩ := hfirst
  obtain ⟨front, c, htext', hc⟩ := hlast
  have hdrop : (gap ++ (text ++ back)).dropWhile isGap = text ++ back := by
    rw [List.dropWhile_append_of_pos hgap, htext, List.cons_append, List.dropWhile_cons, if_neg (by simp [hb])]
  rw [trimmed, hdrop, List.rdropWhile, List.reverse_append,
    List.dropWhile_append_of_pos (by simpa using hback), htext', List.reverse_append]
  simp [hc]

/-- What the scanner takes is the payload without the blanks around it. -/
theorem trimmed_of_rawValue? {payload text : Bytes} (h : rawValue? payload = some text) :
    text = trimmed payload := by
  obtain ⟨rfl, hskips⟩ := rawValue?_eq_some h
  have hforms := fun l hl => form_of_mem_lex (s := payload) (l := l) hl (hskips.isGood l hl)
  have hall : lex payload = lex payload ++ [] := (List.append_nil _).symm
  obtain ⟨back, hcut, hback⟩ := exists_lex_eq hall
  cases hlex : lex payload with
  | nil =>
      rw [hlex] at hskips
      cases hskips
  | cons l ls =>
      rw [hlex] at hforms hcut
      obtain ⟨hform, hgap⟩ := hforms l List.mem_cons_self
      obtain ⟨⟨b, tail, htext, hb⟩, -⟩ := hform.ends
      have hcut' : payload = l.gap ++ (spell (l :: ls) ++ back) := by
        rw [List.flatMap_cons, Lexeme.bytes, List.append_assoc, List.append_assoc] at hcut
        rw [hcut, spell, List.append_assoc]
        rfl
      have hfirst : ∃ b tail, spell (l :: ls) = b :: tail ∧ isGap b = false :=
        ⟨b, tail ++ ls.flatMap Lexeme.bytes, by rw [spell, htext]; rfl, hb⟩
      have hlast := spell_ends (List.cons_ne_nil l ls) fun l hl => (hforms l hl).1
      rw [hcut', trimmed_eq hgap (all_isGap_of_lex_nil hback) hfirst hlast]

end Json

/-! ## Payloads that are embedded again -/

/-- What stands in a record for a payload is JSON as it is written. -/
theorem rawValue?_embed (payload : Bytes) : Json.rawValue? (embed payload) = some (embed payload) := by
  let event : Event := ⟨0, "", payload⟩
  have ht : Millis.InRange event.timestamp := show Millis.InRange 0 by decide
  exact (payload_of_readLogLine (readLogLine_logLine ht)).rawValue?

theorem embed_embed (payload : Bytes) : embed (embed payload) = embed payload := by
  rw [embed, rawValue?_embed]

/-- What stands in a record for a payload: the payload without the blanks around it, if it is JSON, and
otherwise its text as a JSON string. -/
theorem embed_eq (payload : Bytes) :
    ((Json.rawValue? payload).isSome → embed payload = Json.trimmed payload) ∧
    (Json.rawValue? payload = none → embed payload = Json.quoted (Utf8.decodeLossy payload)) := by
  rw [embed]
  cases h : Json.rawValue? payload with
  | none => simp
  | some text => simpa using Json.trimmed_of_rawValue? h

end EventReplay
