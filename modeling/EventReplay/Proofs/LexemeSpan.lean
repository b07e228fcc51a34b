import Mathlib.Tactic.Common
import EventReplay.Json.Grammar

/-!
# Where lexemes come from

What a reader of JSON text leaves is the end of what it was given (`Json.readToken_suffix`), so the
lexemes of a text are made of its bytes, and so is a JSON value that is taken out of it
(`Json.mem_of_rawValue?`).
-/

set_option autoImplicit false

namespace EventReplay.Json

/-! ## Words, numerals and strings -/

theorem readWord_suffix {word s rest : Bytes} (h : readWord word s = .ok rest) : rest <:+ s := by
  induction word generalizing s with
  | nil =>
      obtain rfl : s = rest := by simpa [readWord] using h
      exact List.suffix_refl s
  | cons w word ih =>
      cases s with
      | nil => simp [readWord] at h
      | cons b s =>
          simp only [readWord] at h
          split at h
          · exact (ih h).trans (List.suffix_cons b s)
          · simp at h

theorem readDigits_suffix {s digits rest : Bytes} (h : readDigits s = .ok (digits, rest)) :
    rest <:+ s := by
  unfold readDigits at h
  split at h
  · simp at h
  · split at h
    · simp only [Except.ok.injEq, Prod.mk.injEq] at h
      rw [← h.2]
      exact List.dropWhile_suffix _
    · simp at h

theorem readWhole_suffix {s digits rest : Bytes} (h : readWhole s = .ok (digits, rest)) :
    rest <:+ s := by
  unfold readWhole at h
  split at h
  · simp at h
  · rename_i digits' rest' hdigits
    split at h
    · simp at h
    · simp only [Except.ok.injEq, Prod.mk.injEq] at h
      exact h.2 ▸ readDigits_suffix hdigits

theorem readFraction_suffix {s rest : Bytes} {fraction : Option Bytes}
    (h : readFraction s = .ok (fraction, rest)) : rest <:+ s := by
  unfold readFraction at h
  split at h
  · simp only [Except.ok.injEq, Prod.mk.injEq] at h
    exact h.2 ▸ List.suffix_refl _
  · rename_i b s
    split at h
    · split at h
      · simp at h
      · rename_i digits rest' hdigits
        simp only [Except.ok.injEq, Prod.mk.injEq] at h
        exact h.2 ▸ (readDigits_suffix hdigits).trans (List.suffix_cons b s)
    · simp only [Except.ok.injEq, Prod.mk.injEq] at h
      exact h.2 ▸ List.suffix_refl _

theorem readExponent_suffix {s rest : Bytes} {exponent : Option (Bool × Bytes)}
    (h : readExponent s = .ok (exponent, rest)) : rest <:+ s := by
  unfold readExponent at h
  split at h
  · simp only [Except.ok.injEq, Prod.mk.injEq] at h
    exact h.2 ▸ List.suffix_refl _
  · rename_i b s
    split at h
    · split at h
      rename_i minus ds hsign
      -- a sign in front of the digits is passed over
      have hds : ds <:+ s := by
        split at hsign
        · simp_all
        · rename_i sign digits
          have htail := List.suffix_cons sign digits
          split at hsign
          · simp_all
          · split at hsign <;> simp_all
      split at h
      · simp at h
      · rename_i digits rest' hdigits
        simp only [Except.ok.injEq, Prod.mk.injEq] at h
        exact h.2 ▸ ((readDigits_suffix hdigits).trans hds).trans (List.suffix_cons b s)
    · simp only [Except.ok.injEq, Prod.mk.injEq] at h
      exact h.2 ▸ List.suffix_refl _

theorem readMinus_suffix (s : Bytes) : (readMinus s).2 <:+ s := by
  unfold readMinus
  split
  · exact List.suffix_refl _
  · split
    · exact List.suffix_cons ..
    · exact List.suffix_refl _

theorem readNumeral_suffix {s rest : Bytes} {n : Numeral} (h : readNumeral s = .ok (n, rest)) :
    rest <:+ s := by
  unfold readNumeral at h
  split at h
  · simp at h
  · rename_i whole rest₁ hwhole
    split at h
    · simp at h
    · rename_i fraction rest₂ hfraction
      split at h
      · simp at h
      · rename_i exponent rest₃ hexponent
        simp only [Except.ok.injEq, Prod.mk.injEq] at h
        rw [← h.2]
        exact (readExponent_suffix hexponent).trans ((readFraction_suffix hfraction).trans
          ((readWhole_suffix hwhole).trans (readMinus_suffix s)))

theorem readBody_suffix {s body rest : Bytes} (h : readBody s = some (body, rest)) : rest <:+ s := by
  fun_induction readBody s generalizing body rest with
  | case1 => simp at h
  | case2 s =>
      obtain ⟨-, rfl⟩ : [] = body ∧ s = rest := by simpa using h
      exact List.suffix_cons ..
  | case3 => simp at h
  | case4 => simp at h
  | case5 => simp at h
  -- a backslash with four hexadecimal digits
  | case6 =>
      rename_i ih
      simp only [Option.map_eq_some_iff, Prod.exists, Prod.mk.injEq] at h
      obtain ⟨body', rest', hbody, -, rfl⟩ := h
      exact (ih hbody).trans ⟨[_, _, _, _, _, _], rfl⟩
  | case7 => simp at h
  | case8 => simp at h
  -- a backslash with one character
  | case9 =>
      rename_i ih
      simp only [Option.map_eq_some_iff, Prod.exists, Prod.mk.injEq] at h
      obtain ⟨body', rest', hbody, -, rfl⟩ := h
      exact (ih hbody).trans ⟨[_, _], rfl⟩
  -- a byte that stands for itself
  | case10 =>
      rename_i ih
      simp only [Option.map_eq_some_iff, Prod.exists, Prod.mk.injEq] at h
      obtain ⟨body', rest', hbody, -, rfl⟩ := h
      exact (ih hbody).trans (List.suffix_cons ..)

/-! ## Lexemes -/

theorem readToken_suffix (b : UInt8) (s : Bytes) : (readToken b s).2 <:+ b :: s := by
  have hcons := List.suffix_cons b s
  have word {spelled rest : Bytes} (h : readWord spelled s = .ok rest) :=
    (readWord_suffix h).trans hcons
  have body {said rest : Bytes} (h : readBody s = some (said, rest)) := (readBody_suffix h).trans hcons
  have numeral {n : Numeral} {rest : Bytes} (h : readNumeral (b :: s) = .ok (n, rest)) :=
    readNumeral_suffix h
  -- whatever the first byte calls for leaves the end of the text
  unfold readToken
  repeat' split
  all_goals first
    | exact hcons
    | exact List.nil_suffix
    | exact word (by assumption)
    | exact body (by assumption)
    | exact numeral (by assumption)

/-- The bytes of a lexeme, with the blanks in front. -/
def Lexeme.bytes (l : Lexeme) : Bytes := l.gap ++ l.text

/-- A lexeme is cut off the front. -/
theorem bytes_append_of_readLexeme {s rest : Bytes} {l : Lexeme} (h : readLexeme s = some (l, rest)) :
    l.bytes ++ rest = s := by
  unfold readLexeme at h
  split at h
  · simp at h
  · rename_i b after hs
    simp only [Option.some.injEq, Prod.mk.injEq] at h
    obtain ⟨rfl, rfl⟩ := h
    obtain ⟨spelled, hspelled⟩ := readToken_suffix b after
    have htext : spelling (b :: after) (readToken b after).2 = spelled := by
      rw [spelling, ← hspelled, List.length_append, Nat.add_sub_cancel, List.take_left]
    show (s.takeWhile isGap ++ spelling (b :: after) (readToken b after).2) ++ _ = s
    rw [htext, List.append_assoc, hspelled, ← hs, List.takeWhile_append_dropWhile]

/-- The lexemes of a text are made of its bytes. -/
theorem mem_of_mem_lex {s : Bytes} {l : Lexeme} {b : UInt8} (hl : l ∈ lex s) (hb : b ∈ l.bytes) :
    b ∈ s := by
  fun_induction lex s with
  | case1 => simp at hl
  | case2 s first rest hread ih =>
      rw [← bytes_append_of_readLexeme hread]
      rcases List.mem_cons.mp hl with rfl | hl
      · exact List.mem_append_left _ hb
      · exact List.mem_append_right _ (ih hl)

/-! ## Values -/

theorem append_of_skipValue {opened : List Bracket} {need : Need} {ls taken rest : List Lexeme}
    (h : skipValue opened need ls = some (taken, rest)) : taken ++ rest = ls := by
  induction ls generalizing opened need taken with
  | nil => simp [skipValue] at h
  | cons l ls ih =>
      simp only [skipValue] at h
      split at h
      · simp at h
      · split at h
        · simp only [Option.some.injEq, Prod.mk.injEq] at h
          obtain ⟨rfl, rfl⟩ := h
          rfl
        · split at h
          · simp at h
          · rename_i taken' rest' hskip
            simp only [Option.some.injEq, Prod.mk.injEq] at h
            obtain ⟨rfl, rfl⟩ := h
            rw [List.cons_append, ih hskip]

theorem exists_mem_of_mem_spell {ls : List Lexeme} {b : UInt8} (h : b ∈ spell ls) :
    ∃ l ∈ ls, b ∈ l.bytes := by
  cases ls with
  | nil => simp [spell] at h
  | cons l ls =>
      rcases List.mem_append.mp h with h | h
      · exact ⟨l, .head _, List.mem_append_right _ h⟩
      · obtain ⟨l', hl', hb⟩ := List.mem_flatMap.mp h
        exact ⟨l', .tail _ hl', hb⟩

/-- A value is made of the bytes that hold it. -/
theorem mem_of_rawValue? {s text : Bytes} (h : rawValue? s = some text) {b : UInt8} (hb : b ∈ text) :
    b ∈ s := by
  unfold rawValue? at h
  split at h
  · rename_i taken hskip
    simp only at h
    split at h
    · obtain rfl := Option.some.inj h
      obtain ⟨l, hl, hmem⟩ := exists_mem_of_mem_spell hb
      refine mem_of_mem_lex ?_ hmem
      rwa [← append_of_skipValue hskip, List.append_nil]
    · simp at h
  · simp at h

end EventReplay.Json
