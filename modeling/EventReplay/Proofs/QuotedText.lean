import EventReplay.Json.Quoted
import EventReplay.Proofs.Utf8Text

/-!
# Reading quoted text back

A character is written into a string in one of three ways (`quoteChar_cases`): with a backslash and a
letter, in hexadecimal digits, or as it stands. In each of them `readBody` passes over it and `unquote`
gives its bytes back, so a quoted text ends at its closing quote (`readBody_quotedBody`) and says the text
(`textOf?_quotedBody`).
-/

set_option autoImplicit false

namespace EventReplay.Json

/-- What stands between the quotes of a quoted text. -/
def quotedBody (s : String) : Bytes := s.toList.flatMap quoteChar

/-! ## Bytes that stand for themselves -/

/-- A byte that stands for itself in a string. -/
def IsPlain (b : UInt8) : Prop := b ≠ quote ∧ ¬ b < 0x20 ∧ b ≠ backslash

theorem isPlain_ofNat {n : Nat} (hn : n < 256) (hlow : 0x20 ≤ n) (hquote : n ≠ 0x22)
    (hbackslash : n ≠ 0x5C) : IsPlain (UInt8.ofNat n) := by
  have h := Utf8.toNat_ofNat hn
  refine ⟨fun heq => hquote ?_, fun hlt => ?_, fun heq => hbackslash ?_⟩
  · rw [← h, heq]
    rfl
  · have hlt' : n < 0x20 := h ▸ (UInt8.lt_iff_toNat_lt.mp hlt)
    omega
  · rw [← h, heq]
    rfl

theorem readBody_plain {bs : Bytes} (h : ∀ b ∈ bs, IsPlain b) (rest : Bytes) :
    readBody (bs ++ rest) = (readBody rest).map fun (body, after) => (bs ++ body, after) := by
  induction bs with
  | nil => simp
  | cons b bs ih =>
    obtain ⟨hquote, hlow, hbackslash⟩ := h b List.mem_cons_self
    rw [List.cons_append, readBody.eq_def]
    simp only [hquote, hlow, hbackslash, if_false, ih fun b hb => h b (List.mem_cons_of_mem _ hb),
      Option.map_map]
    rfl

theorem unquote_plain {bs : Bytes} (h : ∀ b ∈ bs, IsPlain b) (rest : Bytes) :
    unquote (bs ++ rest) = (unquote rest).map fun said => bs ++ said := by
  induction bs with
  | nil =>
    rw [List.nil_append]
    cases unquote rest <;> rfl
  | cons b bs ih =>
    obtain ⟨hquote, hlow, hbackslash⟩ := h b List.mem_cons_self
    rw [List.cons_append, unquote.eq_def]
    simp only [hquote, hlow, hbackslash, if_false, ih fun b hb => h b (List.mem_cons_of_mem _ hb)]
    cases unquote rest <;> rfl

/-! ## Escapes -/

theorem backslash_ne : backslash ≠ quote ∧ ¬ backslash < 0x20 := by decide

theorem readBody_escape {e d : UInt8} (hu : e ≠ ascii 'u') (he : simpleEscape? e = some d)
    (rest : Bytes) :
    readBody (backslash :: e :: rest) =
      (readBody rest).map fun (body, after) => (backslash :: e :: body, after) := by
  rw [readBody.eq_def]
  simp only [backslash_ne, if_false, if_true, hu, he]

theorem unquote_escape {e d : UInt8} (hu : e ≠ ascii 'u') (he : simpleEscape? e = some d)
    (rest : Bytes) :
    unquote (backslash :: e :: rest) = (unquote rest).map fun said => d :: said := by
  rw [unquote.eq_def]
  simp only [backslash_ne, if_false, if_true, hu, he]

theorem readBody_hex {h₁ h₂ h₃ h₄ : UInt8} {n : Nat} (h : hexValue? h₁ h₂ h₃ h₄ = some n)
    (rest : Bytes) :
    readBody (backslash :: ascii 'u' :: h₁ :: h₂ :: h₃ :: h₄ :: rest) =
      (readBody rest).map fun (body, after) =>
        (backslash :: ascii 'u' :: h₁ :: h₂ :: h₃ :: h₄ :: body, after) := by
  rw [readBody.eq_def]
  simp only [backslash_ne, if_false, if_true, h]

theorem unquote_hex {h₁ h₂ h₃ h₄ : UInt8} {n : Nat} (h : hexValue? h₁ h₂ h₃ h₄ = some n)
    (hn : n < 0xD800) (rest : Bytes) :
    unquote (backslash :: ascii 'u' :: h₁ :: h₂ :: h₃ :: h₄ :: rest) =
      (unquote rest).map fun said => String.utf8EncodeChar (Char.ofNat n) ++ said := by
  rw [unquote.eq_def]
  simp only [backslash_ne, if_false, if_true, h]
  rw [if_neg (by omega), if_neg (by omega)]

/-! ## Characters -/

theorem hexValue?_hexDigit : ∀ n < 0x20,
    hexValue? (ascii '0') (ascii '0') (hexDigit (n / 16)) (hexDigit (n % 16)) = some n := by
  decide

theorem isPlain_encodeChar {c : Char} (hlow : 0x20 ≤ c.toNat) (hquote : c ≠ '"')
    (hbackslash : c ≠ '\\') : ∀ b ∈ String.utf8EncodeChar c, IsPlain b := by
  obtain ⟨n, hn⟩ : ∃ n, n = c.toNat := ⟨_, rfl⟩
  have hquote' : n ≠ 0x22 := fun h => hquote (Char.toNat_inj.mp (hn ▸ h))
  have hbackslash' : n ≠ 0x5C := fun h => hbackslash (Char.toNat_inj.mp (hn ▸ h))
  have hval : c.val.toNat = n := hn.symm
  rw [String.utf8EncodeChar.eq_1, hval]
  -- the bytes of a longer sequence are all above 127
  have hhigh : ∀ m, 0x80 ≤ m → m < 256 → IsPlain (UInt8.ofNat m) := fun m hm hm' =>
    isPlain_ofNat hm' (by omega) (by omega) (by omega)
  repeat' split
  all_goals simp only [List.forall_mem_cons, List.not_mem_nil, false_implies, implies_true, and_true]
  · exact isPlain_ofNat (by omega) (hn ▸ hlow) hquote' hbackslash'
  · exact ⟨hhigh _ (by omega) (by omega), hhigh _ (by omega) (by omega)⟩
  · exact ⟨hhigh _ (by omega) (by omega), hhigh _ (by omega) (by omega), hhigh _ (by omega) (by omega)⟩
  · exact ⟨hhigh _ (by omega) (by omega), hhigh _ (by omega) (by omega), hhigh _ (by omega) (by omega),
      hhigh _ (by omega) (by omega)⟩

/-- The three ways in which a character is written into a string. -/
theorem quoteChar_cases (c : Char) :
    (∃ e d, quoteChar c = [backslash, e] ∧ e ≠ ascii 'u' ∧ simpleEscape? e = some d ∧
      String.utf8EncodeChar c = [d]) ∨
    (∃ h l, quoteChar c = [backslash, ascii 'u', ascii '0', ascii '0', h, l] ∧
      hexValue? (ascii '0') (ascii '0') h l = some c.toNat ∧ c.toNat < 0x20) ∨
    (quoteChar c = String.utf8EncodeChar c ∧ ∀ b ∈ String.utf8EncodeChar c, IsPlain b) := by
  unfold quoteChar
  split
  next h => exact .inl ⟨quote, quote, rfl, by decide, by decide, by subst h; decide⟩
  split
  next h => exact .inl ⟨backslash, backslash, rfl, by decide, by decide, by subst h; decide⟩
  split
  next h => exact .inl ⟨ascii 'b', 0x08, rfl, by decide, by decide, by subst h; decide⟩
  split
  next h => exact .inl ⟨ascii 'f', 0x0C, rfl, by decide, by decide, by subst h; decide⟩
  split
  next h => exact .inl ⟨ascii 'n', 0x0A, rfl, by decide, by decide, by subst h; decide⟩
  split
  next h => exact .inl ⟨ascii 'r', 0x0D, rfl, by decide, by decide, by subst h; decide⟩
  split
  next h => exact .inl ⟨ascii 't', 0x09, rfl, by decide, by decide, by subst h; decide⟩
  split
  next h => exact .inr (.inl ⟨_, _, rfl, hexValue?_hexDigit _ h, h⟩)
  next hquote hbackslash _ _ _ _ _ hlow =>
    exact .inr (.inr ⟨rfl, isPlain_encodeChar (Nat.not_lt.mp hlow) hquote hbackslash⟩)

theorem readBody_quoteChar (c : Char) (rest : Bytes) :
    readBody (quoteChar c ++ rest) =
      (readBody rest).map fun (body, after) => (quoteChar c ++ body, after) := by
  obtain ⟨e, d, h, hu, he, -⟩ | ⟨h₃, h₄, h, hvalue, -⟩ | ⟨h, hplain⟩ := quoteChar_cases c
  · rw [h]
    exact readBody_escape hu he rest
  · rw [h]
    exact readBody_hex hvalue rest
  · rw [h]
    exact readBody_plain hplain rest

theorem unquote_quoteChar (c : Char) (rest : Bytes) :
    unquote (quoteChar c ++ rest) =
      (unquote rest).map fun said => String.utf8EncodeChar c ++ said := by
  obtain ⟨e, d, h, hu, he, hbytes⟩ | ⟨h₃, h₄, h, hvalue, hlow⟩ | ⟨h, hplain⟩ := quoteChar_cases c
  · rw [h, hbytes]
    exact unquote_escape hu he rest
  · have hunquote := unquote_hex hvalue (by omega) rest
    rw [Char.ofNat_toNat] at hunquote
    rw [h]
    exact hunquote
  · rw [h]
    exact unquote_plain hplain rest

/-! ## Texts -/

/-- A quoted text ends at its closing quote. -/
theorem readBody_quotedBody (s : String) (rest : Bytes) :
    readBody (quotedBody s ++ quote :: rest) = some (quotedBody s, rest) := by
  rw [quotedBody]
  induction s.toList with
  | nil =>
    rw [List.flatMap_nil, List.nil_append, readBody.eq_def]
    simp only [if_true]
  | cons c cs ih =>
    rw [List.flatMap_cons, List.append_assoc, readBody_quoteChar, ih]
    rfl

theorem unquote_quotedBody (s : String) (rest : Bytes) :
    unquote (quotedBody s ++ quote :: rest) = .ok (Utf8.encode s) := by
  rw [quotedBody, Utf8.encode]
  induction s.toList with
  | nil =>
    rw [List.flatMap_nil, List.nil_append, unquote.eq_def]
    simp only [if_true]
    rfl
  | cons c cs ih =>
    rw [List.flatMap_cons, List.append_assoc, unquote_quoteChar, ih]
    rfl

/-- A quoted text says the text. -/
theorem textOf?_quotedBody (s : String) : textOf? (quotedBody s) = some s := by
  have h := unquote_quotedBody s []
  rw [textOf?, h]
  exact Utf8.decode?_encode s

end EventReplay.Json
