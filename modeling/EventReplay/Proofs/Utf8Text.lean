import Mathlib.Data.List.Basic
import EventReplay.Text.Utf8

/-!
# Reading a text back from its bytes

`Utf8.pieces` cuts the bytes of a character off the front of any bytes (`pieces_encodeChar`). So a text
is read back from its bytes, whatever stands behind them, and two texts with the same bytes are the same.
-/

set_option autoImplicit false

namespace EventReplay.Utf8

/-! ## Bytes given as numbers -/

theorem toNat_ofNat {n : Nat} (hn : n < 256) : (UInt8.ofNat n).toNat = n := by
  rw [UInt8.toNat_ofNat', Nat.mod_eq_of_lt hn]

theorem low_ofNat {n : Nat} (hn : n < 256) : low (UInt8.ofNat n) = n % 64 := by
  rw [low, toNat_ofNat hn]

theorem isContinuation_ofNat {n : Nat} (hlow : 0x80 ≤ n) (hhigh : n ≤ 0xBF) :
    isContinuation (UInt8.ofNat n) = true := by
  have h := toNat_ofNat (n := n) (by omega)
  simp only [isContinuation, UInt8.le_iff_toNat_le, h, UInt8.reduceToNat, Bool.and_eq_true,
    decide_eq_true_eq]
  exact ⟨hlow, hhigh⟩

theorem not_isContinuation_ofNat {n : Nat} (hn : n < 256) (h : n < 0x80 ∨ 0xBF < n) :
    isContinuation (UInt8.ofNat n) = false := by
  rw [isContinuation, Bool.and_eq_false_iff, decide_eq_false_iff_not, decide_eq_false_iff_not,
    UInt8.le_iff_toNat_le, UInt8.le_iff_toNat_le, toNat_ofNat hn]
  have hlow : (0x80 : UInt8).toNat = 0x80 := rfl
  have hhigh : (0xBF : UInt8).toNat = 0xBF := rfl
  omega

/-- What the first byte of a character promises. -/
theorem lead?_ofNat {n : Nat} (hn : n < 256) :
    lead? (UInt8.ofNat n) =
      if n < 0xC2 then none
      else if n < 0xE0 then some (0x80, 0xBF, 1)
      else if n = 0xE0 then some (0xA0, 0xBF, 2)
      else if n = 0xED then some (0x80, 0x9F, 2)
      else if n < 0xF0 then some (0x80, 0xBF, 2)
      else if n = 0xF0 then some (0x90, 0xBF, 3)
      else if n < 0xF4 then some (0x80, 0xBF, 3)
      else if n = 0xF4 then some (0x80, 0x8F, 3)
      else none := by
  simp only [lead?, UInt8.lt_iff_toNat_lt, ← UInt8.toNat_inj, toNat_ofNat hn, UInt8.reduceToNat]

/-- The second byte of a character lies in the range that the first promises. -/
theorem lead?_within {a b : Nat} (ha : 0xC2 ≤ a) (ha' : a ≤ 0xF4) (hb : 0x80 ≤ b) (hb' : b ≤ 0xBF)
    (hE0 : a = 0xE0 → 0xA0 ≤ b) (hED : a = 0xED → b ≤ 0x9F) (hF0 : a = 0xF0 → 0x90 ≤ b)
    (hF4 : a = 0xF4 → b ≤ 0x8F) :
    ∃ lo hi, lead? (UInt8.ofNat a) =
        some (lo, hi, if a < 0xE0 then 1 else if a < 0xF0 then 2 else 3) ∧
      (UInt8.ofNat b < lo || hi < UInt8.ofNat b) = false := by
  rw [lead?_ofNat (by omega)]
  simp only [UInt8.lt_iff_toNat_lt, toNat_ofNat (n := b) (by omega), Bool.or_eq_false_iff,
    decide_eq_false_iff_not]
  obtain h | h | h | h | h | h : a = 0xE0 ∨ a = 0xED ∨ a = 0xF0 ∨ a = 0xF4 ∨
      (a < 0xF0 ∧ a ≠ 0xE0 ∧ a ≠ 0xED) ∨ (0xF0 < a ∧ a < 0xF4) := by
    omega
  · exact ⟨0xA0, 0xBF, by grind, by simpa using hE0 h, by simpa using hb'⟩
  · exact ⟨0x80, 0x9F, by grind, by simpa using hb, by simpa using hED h⟩
  · exact ⟨0x90, 0xBF, by grind, by simpa using hF0 h, by simpa using hb'⟩
  · exact ⟨0x80, 0x8F, by grind, by simpa using hb, by simpa using hF4 h⟩
  · exact ⟨0x80, 0xBF, by grind, by simpa using hb, by simpa using hb'⟩
  · exact ⟨0x80, 0xBF, by grind, by simpa using hb, by simpa using hb'⟩

/-- The ranges that a first byte can promise. -/
theorem lead?_range {a lo hi : UInt8} {more : Nat} (h : lead? a = some (lo, hi, more)) :
    (more = 1 ∧ 0xC2 ≤ a.toNat ∧ a.toNat < 0xE0 ∧ lo.toNat = 0x80 ∧ hi.toNat = 0xBF) ∨
    (more = 2 ∧ 0xE0 ≤ a.toNat ∧ a.toNat < 0xF0 ∧ 0x80 ≤ lo.toNat ∧ hi.toNat ≤ 0xBF ∧
      (a.toNat = 0xE0 → lo.toNat = 0xA0) ∧ (a.toNat = 0xED → hi.toNat = 0x9F)) ∨
    (more = 3 ∧ 0xF0 ≤ a.toNat ∧ a.toNat ≤ 0xF4 ∧ 0x80 ≤ lo.toNat ∧ hi.toNat ≤ 0xBF ∧
      (a.toNat = 0xF0 → lo.toNat = 0x90) ∧ (a.toNat = 0xF4 → hi.toNat = 0x8F)) := by
  rw [← UInt8.ofNat_toNat (x := a), lead?_ofNat a.toNat_lt] at h
  generalize a.toNat = n at *
  have h80 : UInt8.toNat 0x80 = 0x80 := rfl
  have hBF : UInt8.toNat 0xBF = 0xBF := rfl
  have hA0 : UInt8.toNat 0xA0 = 0xA0 := rfl
  have h9F : UInt8.toNat 0x9F = 0x9F := rfl
  have h90 : UInt8.toNat 0x90 = 0x90 := rfl
  have h8F : UInt8.toNat 0x8F = 0x8F := rfl
  repeat' split at h
  all_goals
    simp only [Option.some.injEq, Prod.mk.injEq, reduceCtorEq] at h
  all_goals
    obtain ⟨rfl, rfl, rfl⟩ := h
    omega

/-! ## Characters -/

theorem ofNat_lt_ascii {n : Nat} (hn : n < 256) : UInt8.ofNat n < 0x80 ↔ n < 0x80 := by
  rw [UInt8.lt_iff_toNat_lt, toNat_ofNat hn]
  rfl

theorem pieces_one {a : Nat} (ha : a < 0x80) (rest : Bytes) :
    pieces (UInt8.ofNat a :: rest) = some (Char.ofNat a) :: pieces rest := by
  have h := (ofNat_lt_ascii (by omega)).mpr ha
  rw [pieces, if_pos h, toNat_ofNat (by omega)]

theorem pieces_two {a b : Nat} (ha : 0xC2 ≤ a) (ha' : a < 0xE0) (hb : 0x80 ≤ b) (hb' : b ≤ 0xBF)
    (rest : Bytes) :
    pieces (UInt8.ofNat a :: UInt8.ofNat b :: rest) =
      some (Char.ofNat (a % 32 * 64 + b % 64)) :: pieces rest := by
  have hfirst : ¬ UInt8.ofNat a < 0x80 := by
    rw [ofNat_lt_ascii (by omega)]
    omega
  obtain ⟨lo, hi, hlead, hwithin⟩ :=
    lead?_within ha (by omega) hb hb' (by omega) (by omega) (by omega) (by omega)
  rw [if_pos ha'] at hlead
  rw [pieces, if_neg hfirst, hlead]
  simp only [hwithin, toNat_ofNat (n := a) (by omega), low_ofNat (n := b) (by omega)]
  rfl

theorem pieces_three {a b c : Nat} (ha : 0xE0 ≤ a) (ha' : a < 0xF0) (hb : 0x80 ≤ b) (hb' : b ≤ 0xBF)
    (hE0 : a = 0xE0 → 0xA0 ≤ b) (hED : a = 0xED → b ≤ 0x9F) (hc : 0x80 ≤ c) (hc' : c ≤ 0xBF)
    (rest : Bytes) :
    pieces (UInt8.ofNat a :: UInt8.ofNat b :: UInt8.ofNat c :: rest) =
      some (Char.ofNat (a % 16 * 4096 + b % 64 * 64 + c % 64)) :: pieces rest := by
  have hfirst : ¬ UInt8.ofNat a < 0x80 := by
    rw [ofNat_lt_ascii (by omega)]
    omega
  obtain ⟨lo, hi, hlead, hwithin⟩ :=
    lead?_within (by omega) (by omega) hb hb' hE0 hED (by omega) (by omega)
  rw [if_neg (by omega), if_pos ha'] at hlead
  rw [pieces, if_neg hfirst, hlead]
  simp only [hwithin, isContinuation_ofNat hc hc', toNat_ofNat (n := a) (by omega),
    low_ofNat (n := b) (by omega), low_ofNat (n := c) (by omega)]
  rfl

theorem pieces_four {a b c d : Nat} (ha : 0xF0 ≤ a) (ha' : a ≤ 0xF4) (hb : 0x80 ≤ b) (hb' : b ≤ 0xBF)
    (hF0 : a = 0xF0 → 0x90 ≤ b) (hF4 : a = 0xF4 → b ≤ 0x8F) (hc : 0x80 ≤ c) (hc' : c ≤ 0xBF)
    (hd : 0x80 ≤ d) (hd' : d ≤ 0xBF) (rest : Bytes) :
    pieces (UInt8.ofNat a :: UInt8.ofNat b :: UInt8.ofNat c :: UInt8.ofNat d :: rest) =
      some (Char.ofNat (a % 8 * 262144 + b % 64 * 4096 + c % 64 * 64 + d % 64)) :: pieces rest := by
  have hfirst : ¬ UInt8.ofNat a < 0x80 := by
    rw [ofNat_lt_ascii (by omega)]
    omega
  obtain ⟨lo, hi, hlead, hwithin⟩ :=
    lead?_within (by omega) ha' hb hb' (by omega) (by omega) hF0 hF4
  rw [if_neg (by omega), if_neg (by omega)] at hlead
  rw [pieces, if_neg hfirst, hlead]
  simp only [hwithin, isContinuation_ofNat hc hc', isContinuation_ofNat hd hd',
    toNat_ofNat (n := a) (by omega), low_ofNat (n := b) (by omega), low_ofNat (n := c) (by omega),
    low_ofNat (n := d) (by omega)]
  rfl

/-- The bytes of a character are cut off as that character. -/
theorem pieces_encodeChar (c : Char) (rest : Bytes) :
    pieces (String.utf8EncodeChar c ++ rest) = some c :: pieces rest := by
  obtain ⟨n, hn⟩ : ∃ n, n = c.toNat := ⟨_, rfl⟩
  have hval : c.val.toNat = n := hn.symm
  have hchar : Char.ofNat n = c := by rw [hn, Char.ofNat_toNat]
  -- No character is a surrogate, so the first byte 0xED goes with a low second one.
  have hvalid : n < 0xD800 ∨ 0xDFFF < n ∧ n < 0x110000 := by
    have := c.valid
    rw [UInt32.isValidChar, hval] at this
    exact this
  rw [String.utf8EncodeChar.eq_1, hval]
  split
  · rw [List.singleton_append, pieces_one (by omega), hchar]
  split
  · have hcode : (n / 64 % 32 + 192) % 32 * 64 + (n % 64 + 128) % 64 = n := by omega
    rw [List.cons_append, List.singleton_append,
      pieces_two (by omega) (by omega) (by omega) (by omega), hcode, hchar]
  split
  · have hcode : (n / 4096 % 16 + 224) % 16 * 4096 + (n / 64 % 64 + 128) % 64 * 64 +
        (n % 64 + 128) % 64 = n := by omega
    rw [List.cons_append, List.cons_append, List.singleton_append,
      pieces_three (by omega) (by omega) (by omega) (by omega) (by omega) (by omega) (by omega)
        (by omega), hcode, hchar]
  · have hcode : (n / 262144 % 8 + 240) % 8 * 262144 + (n / 4096 % 64 + 128) % 64 * 4096 +
        (n / 64 % 64 + 128) % 64 * 64 + (n % 64 + 128) % 64 = n := by omega
    rw [List.cons_append, List.cons_append, List.cons_append, List.singleton_append,
      pieces_four (by omega) (by omega) (by omega) (by omega) (by omega) (by omega) (by omega)
        (by omega) (by omega) (by omega), hcode, hchar]

/-! ## Characters from their bytes -/

theorem toNat_within {b lo hi : UInt8} (h : ¬ (b < lo || hi < b) = true) :
    lo.toNat ≤ b.toNat ∧ b.toNat ≤ hi.toNat := by
  simpa [UInt8.lt_iff_toNat_lt] using h

theorem toNat_isContinuation {b : UInt8} (h : ¬ (!isContinuation b) = true) :
    0x80 ≤ b.toNat ∧ b.toNat ≤ 0xBF := by
  simpa [isContinuation, UInt8.le_iff_toNat_le] using h

theorem encodeChar_ofNat {n : Nat} (h : n.isValidChar) :
    String.utf8EncodeChar (Char.ofNat n) =
      if n ≤ 127 then [UInt8.ofNat n]
      else if n ≤ 2047 then [UInt8.ofNat (n / 64 % 32 + 192), UInt8.ofNat (n % 64 + 128)]
      else if n ≤ 65535 then
        [UInt8.ofNat (n / 4096 % 16 + 224), UInt8.ofNat (n / 64 % 64 + 128), UInt8.ofNat (n % 64 + 128)]
      else
        [UInt8.ofNat (n / 262144 % 8 + 240), UInt8.ofNat (n / 4096 % 64 + 128),
          UInt8.ofNat (n / 64 % 64 + 128), UInt8.ofNat (n % 64 + 128)] := by
  have hval : (Char.ofNat n).val.toNat = n := by
    rw [Char.ofNat, dif_pos h]
    rfl
  rw [String.utf8EncodeChar.eq_1, hval]

theorem ofNat_eq {a : UInt8} {n : Nat} (h : a.toNat = n) : UInt8.ofNat n = a := by
  rw [← h, UInt8.ofNat_toNat]

theorem encodeChar_one {a : UInt8} (ha : a < 0x80) :
    String.utf8EncodeChar (Char.ofNat a.toNat) = [a] := by
  have ha' : a.toNat < 0x80 := ha
  rw [encodeChar_ofNat (Or.inl (by omega)), if_pos (by omega), UInt8.ofNat_toNat]

theorem encodeChar_two {a b lo hi : UInt8} (hlead : lead? a = some (lo, hi, 1))
    (hb : ¬ (b < lo || hi < b) = true) :
    String.utf8EncodeChar (Char.ofNat (a.toNat % 32 * 64 + low b)) = [a, b] := by
  have hb := toNat_within hb
  have ha := lead?_range hlead
  rw [low]
  generalize hn : a.toNat % 32 * 64 + b.toNat % 64 = n
  rw [encodeChar_ofNat (Or.inl (by omega)), if_neg (by omega), if_pos (by omega),
    ofNat_eq (a := a) (by omega), ofNat_eq (a := b) (by omega)]

theorem encodeChar_three {a b c lo hi : UInt8} (hlead : lead? a = some (lo, hi, 2))
    (hb : ¬ (b < lo || hi < b) = true) (hc : ¬ (!isContinuation c) = true) :
    String.utf8EncodeChar (Char.ofNat (a.toNat % 16 * 4096 + low b * 64 + low c)) = [a, b, c] := by
  have hb := toNat_within hb
  have hc := toNat_isContinuation hc
  have ha := lead?_range hlead
  rw [low, low]
  generalize hn : a.toNat % 16 * 4096 + b.toNat % 64 * 64 + c.toNat % 64 = n
  have hvalid : n.isValidChar := by
    have : n < 0xD800 ∨ 0xDFFF < n ∧ n < 0x110000 := by omega
    exact this
  rw [encodeChar_ofNat hvalid, if_neg (by omega), if_neg (by omega), if_pos (by omega),
    ofNat_eq (a := a) (by omega), ofNat_eq (a := b) (by omega), ofNat_eq (a := c) (by omega)]

theorem encodeChar_four {a b c d lo hi : UInt8} {more : Nat} (hlead : lead? a = some (lo, hi, more))
    (hmore : more ≠ 1) (hmore' : more ≠ 2)
    (hb : ¬ (b < lo || hi < b) = true) (hc : ¬ (!isContinuation c) = true)
    (hd : ¬ (!isContinuation d) = true) :
    String.utf8EncodeChar (Char.ofNat
      (a.toNat % 8 * 262144 + low b * 4096 + low c * 64 + low d)) = [a, b, c, d] := by
  have hb := toNat_within hb
  have hc := toNat_isContinuation hc
  have hd := toNat_isContinuation hd
  have ha := lead?_range hlead
  rw [low, low, low]
  generalize hn : a.toNat % 8 * 262144 + b.toNat % 64 * 4096 + c.toNat % 64 * 64 + d.toNat % 64 = n
  have hvalid : n.isValidChar := by
    have : n < 0xD800 ∨ 0xDFFF < n ∧ n < 0x110000 := by omega
    exact this
  rw [encodeChar_ofNat hvalid, if_neg (by omega), if_neg (by omega), if_neg (by omega),
    ofNat_eq (a := a) (by omega), ofNat_eq (a := b) (by omega), ofNat_eq (a := c) (by omega),
    ofNat_eq (a := d) (by omega)]

/-! ## Texts -/

theorem encode_append (s t : String) : encode (s ++ t) = encode s ++ encode t := by
  simp [encode]

theorem encode_ofList_cons (c : Char) (cs : List Char) :
    encode (String.ofList (c :: cs)) = String.utf8EncodeChar c ++ encode (String.ofList cs) := by
  simp [encode]

/-- The bytes of a text are cut into its characters. -/
theorem pieces_encode (s : String) (rest : Bytes) :
    pieces (encode s ++ rest) = s.toList.map some ++ pieces rest := by
  rw [encode]
  induction s.toList with
  | nil => rfl
  | cons c cs ih =>
    rw [List.flatMap_cons, List.append_assoc, pieces_encodeChar, ih]
    rfl

theorem pieces_encode_self (s : String) : pieces (encode s) = s.toList.map some := by
  have h := pieces_encode s []
  simpa [pieces] using h

/-- A text is read back from its bytes. -/
theorem decode?_encode (s : String) : decode? (encode s) = some s := by
  have h : (s.toList.map some).mapM id = some s.toList := by
    induction s.toList with
    | nil => rfl
    | cons c cs ih => simp [List.mapM_cons, ih]
  rw [decode?, pieces_encode_self, h, Option.map_some, String.ofList_toList]

theorem encode_injective {s t : String} (h : encode s = encode t) : s = t := by
  have hs := decode?_encode s
  rw [h, decode?_encode] at hs
  exact (Option.some.inj hs).symm

/-! ## Bytes that are a text -/

theorem map_some_cons {α : Type} {a : α} {l : List (Option α)} {cs : List α}
    (h : some a :: l = cs.map some) : ∃ cs', cs = a :: cs' ∧ l = cs'.map some := by
  cases cs with
  | nil => simp at h
  | cons c cs =>
    simp only [List.map_cons, List.cons.injEq, Option.some.injEq] at h
    exact ⟨cs, by rw [h.1], h.2⟩

/-- Bytes without a broken part are those of the characters that they are cut into. -/
theorem encode_pieces {x : Bytes} {cs : List Char} (h : pieces x = cs.map some) :
    encode (String.ofList cs) = x := by
  fun_induction pieces x generalizing cs with
  | case1 =>
    obtain rfl : cs = [] := by simpa using h.symm
    rfl
  | case2 a rest ha ih =>
    obtain ⟨cs, rfl, hrest⟩ := map_some_cons h
    rw [encode_ofList_cons, ih hrest, encodeChar_one ha]
    rfl
  | case6 a ha lo hi b rest hb hlead ih =>
    obtain ⟨cs, rfl, hrest⟩ := map_some_cons h
    rw [encode_ofList_cons, ih hrest, encodeChar_two hlead hb]
    rfl
  | case9 a ha lo hi b hb c rest hc hlead hmore ih =>
    obtain ⟨cs, rfl, hrest⟩ := map_some_cons h
    rw [encode_ofList_cons, ih hrest, encodeChar_three hlead hb hc]
    rfl
  | case12 a ha lo hi more hlead b hb hmore c hc hmore' d rest hd ih =>
    obtain ⟨cs, rfl, hrest⟩ := map_some_cons h
    rw [encode_ofList_cons, ih hrest, encodeChar_four hlead hmore hmore' hb hc hd]
    rfl
  | _ => cases cs <;> simp at h

theorem mapM_id_eq_some {α : Type} {l : List (Option α)} {cs : List α} :
    l.mapM id = some cs ↔ l = cs.map some := by
  induction l generalizing cs with
  | nil => cases cs <;> simp
  | cons o l ih =>
    rw [List.mapM_cons]
    cases o with
    | none => cases cs <;> simp
    | some a =>
      cases cs with
      | nil => cases l.mapM id <;> simp
      | cons c cs =>
        rw [List.map_cons, List.cons.injEq, ← ih]
        cases l.mapM id <;> simp

/-- Bytes are read as a text if they are its bytes. -/
theorem decode?_eq_some {x : Bytes} {s : String} : decode? x = some s ↔ x = encode s := by
  constructor
  · intro h
    obtain ⟨cs, hcs, rfl⟩ := Option.map_eq_some_iff.mp h
    exact (encode_pieces (mapM_id_eq_some.mp hcs)).symm
  · rintro rfl
    exact decode?_encode s

/-- The bytes are those of some text. -/
def IsText (x : Bytes) : Prop := ∃ s, x = encode s

theorem isSome_decode?_iff {x : Bytes} : (decode? x).isSome = true ↔ IsText x := by
  rw [Option.isSome_iff_exists]
  exact exists_congr fun s => decode?_eq_some

theorem IsText.append {x y : Bytes} (hx : IsText x) (hy : IsText y) : IsText (x ++ y) := by
  obtain ⟨s, rfl⟩ := hx
  obtain ⟨t, rfl⟩ := hy
  exact ⟨s ++ t, (encode_append s t).symm⟩

theorem isText_of_ascii {x : Bytes} (h : ∀ b ∈ x, b < 0x80) : IsText x := by
  induction x with
  | nil => exact ⟨"", rfl⟩
  | cons b x ih =>
    obtain ⟨s, rfl⟩ := ih fun b hb => h b (List.mem_cons_of_mem _ hb)
    refine ⟨String.ofList (Char.ofNat b.toNat :: s.toList), ?_⟩
    rw [encode_ofList_cons, encodeChar_one (h b List.mem_cons_self), String.ofList_toList]
    rfl

/-- The first byte of a character does not continue it, the others do. -/
theorem encodeChar_eq_cons (c : Char) :
    ∃ b tail, String.utf8EncodeChar c = b :: tail ∧ isContinuation b = false ∧
      ∀ d ∈ tail, isContinuation d = true := by
  have hcont : ∀ n, isContinuation (UInt8.ofNat (n % 64 + 128)) = true := fun n =>
    isContinuation_ofNat (by omega) (by omega)
  rw [String.utf8EncodeChar.eq_1]
  repeat' split
  all_goals
    refine ⟨_, _, rfl, not_isContinuation_ofNat (by omega) (by omega), ?_⟩
    simp only [List.forall_mem_cons, hcont, List.not_mem_nil, false_implies, implies_true, and_self]

/-- A text can be cut wherever no character goes on. -/
theorem encode_cut {cs : List Char} {x y : Bytes} {b : UInt8} (hb : isContinuation b = false)
    (h : encode (String.ofList cs) = x ++ b :: y) : IsText x ∧ IsText (b :: y) := by
  induction cs generalizing x with
  | nil => simp [encode] at h
  | cons c cs ih =>
    rw [encode_ofList_cons, List.append_eq_append_iff] at h
    obtain ⟨z, rfl, hz⟩ | ⟨z, hchar, hz⟩ := h
    · obtain ⟨⟨s, rfl⟩, hy⟩ := ih hz
      exact ⟨⟨String.ofList (c :: s.toList), by rw [encode_ofList_cons, String.ofList_toList]⟩, hy⟩
    · obtain ⟨first, tail, hfirst, -, htail⟩ := encodeChar_eq_cons c
      cases x with
      | nil =>
        refine ⟨⟨"", rfl⟩, String.ofList (c :: cs), ?_⟩
        rw [encode_ofList_cons, hz, hchar, List.nil_append]
      | cons a x =>
        cases z with
        | nil =>
          rw [List.append_nil] at hchar
          refine ⟨⟨String.ofList [c], ?_⟩, String.ofList cs, hz⟩
          rw [encode_ofList_cons, hchar]
          exact (List.append_nil _).symm
        | cons d z =>
          obtain rfl : b = d := (List.cons.inj hz).1
          rw [hfirst] at hchar
          have hmem : b ∈ tail := (List.cons.inj hchar).2 ▸ List.mem_append_right x List.mem_cons_self
          rw [htail b hmem] at hb
          exact Bool.noConfusion hb

theorem IsText.cut {x y : Bytes} {b : UInt8} (hb : isContinuation b = false)
    (h : IsText (x ++ b :: y)) : IsText x ∧ IsText (b :: y) := by
  obtain ⟨s, hs⟩ := h
  have hchars : encode (String.ofList s.toList) = x ++ b :: y := by rw [String.ofList_toList, hs]
  exact encode_cut hb hchars

/-- What stands before a character of a text and what stands behind it are texts. -/
theorem IsText.around {x y : Bytes} {c : Char} (h : IsText (x ++ (String.utf8EncodeChar c ++ y))) :
    IsText x ∧ IsText y := by
  obtain ⟨b, tail, hchar, hb, -⟩ := encodeChar_eq_cons c
  have hcut : IsText x ∧ IsText (String.utf8EncodeChar c ++ y) := by
    rw [hchar] at h ⊢
    exact h.cut hb
  obtain ⟨hx, s, hs⟩ := hcut
  have hpieces := congrArg pieces hs
  rw [pieces_encodeChar, pieces_encode_self] at hpieces
  obtain ⟨cs, -, hy⟩ := map_some_cons hpieces
  exact ⟨hx, String.ofList cs, (encode_pieces hy).symm⟩

end EventReplay.Utf8
