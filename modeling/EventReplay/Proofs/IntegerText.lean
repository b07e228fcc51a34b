import EventReplay.Json.Value
import EventReplay.Millis
import EventReplay.Proofs.LexemeCut

/-!
# Reading an integer back from its decimal text

The decimal text of a natural number is a row of digits that does not start with zero, unless it is zero
alone, and names the number (`gather_natText`). So the text of a 64-bit integer is one lexeme that names
it (`lex_ofInt`).
-/

set_option autoImplicit false

namespace EventReplay.Json

/-! ## Natural numbers -/

/-- The decimal text of a natural number. -/
def natText (n : Nat) : Bytes := (Nat.toDigits 10 n).map ascii

theorem ofAscii_toString (n : Nat) : Bytes.ofAscii (toString n) = natText n := by
  simp [Bytes.ofAscii, natText, toString, Nat.repr]

/-- The byte of a digit. -/
theorem ascii_digitChar : ∀ d < 10, digitValue (ascii d.digitChar) = d ∧
    Bytes.isDigit (ascii d.digitChar) = true ∧ (ascii d.digitChar = ascii '0' → d = 0) := by
  decide

theorem natText_of_lt {n : Nat} (h : n < 10) : natText n = [ascii n.digitChar] := by
  rw [natText, Nat.toDigits_of_lt_base h]
  rfl

theorem natText_of_le {n : Nat} (h : 10 ≤ n) :
    natText n = natText (n / 10) ++ [ascii (n % 10).digitChar] := by
  rw [natText, Nat.toDigits_of_base_le (by decide) h, List.map_append]
  rfl

theorem natText_ne_nil (n : Nat) : natText n ≠ [] := by
  rw [natText, Ne, List.map_eq_nil_iff]
  exact Nat.toDigits_ne_nil

theorem isDigit_of_mem_natText {n : Nat} {b : UInt8} (h : b ∈ natText n) : Bytes.isDigit b = true := by
  induction n using Nat.strongRecOn with
  | ind n ih =>
    by_cases hn : n < 10
    · rw [natText_of_lt hn, List.mem_singleton] at h
      rw [h]
      exact (ascii_digitChar n hn).2.1
    · rw [natText_of_le (Nat.not_lt.mp hn), List.mem_append, List.mem_singleton] at h
      obtain h | rfl := h
      · exact ih (n / 10) (by omega) h
      · exact (ascii_digitChar (n % 10) (by omega)).2.1

/-- Only zero starts with a zero. -/
theorem head?_natText {n : Nat} (h : (natText n).head? = some (ascii '0')) : n = 0 := by
  induction n using Nat.strongRecOn with
  | ind n ih =>
    by_cases hn : n < 10
    · rw [natText_of_lt hn, List.head?_cons, Option.some.injEq] at h
      exact (ascii_digitChar n hn).2.2 h
    · rw [natText_of_le (Nat.not_lt.mp hn), List.head?_append_of_ne_nil _ (natText_ne_nil _)] at h
      have := ih (n / 10) (by omega) h
      omega

theorem gather_append {m n : Nat} {digits : Bytes} (h : gather m digits = (n, [])) (more : Bytes) :
    gather m (digits ++ more) = gather n more := by
  induction digits generalizing m with
  | nil =>
    obtain rfl : m = n := by simpa [gather] using h
    rfl
  | cons b digits ih =>
    rw [gather] at h
    split at h
    next hfits =>
      rw [List.cons_append, gather, if_pos hfits]
      exact ih h
    next => simp at h

/-- A word of 64 bits is read back from its digits. -/
theorem gather_natText {n : Nat} (h : n ≤ maxWord) : gather 0 (natText n) = (n, []) := by
  induction n using Nat.strongRecOn with
  | ind n ih =>
    by_cases hn : n < 10
    · have hvalue := (ascii_digitChar n hn).1
      rw [natText_of_lt hn, gather, hvalue, if_pos (by omega), gather]
      simp
    · have hvalue := (ascii_digitChar (n % 10) (by omega)).1
      have hsum : 10 * (n / 10) + n % 10 = n := Nat.div_add_mod n 10
      rw [natText_of_le (Nat.not_lt.mp hn), gather_append (ih (n / 10) (by omega) (by omega)), gather,
        hvalue, hsum, if_pos h, gather]

/-! ## Integers -/

/-- The numeral of an integer. -/
def numeralOf (t : Int) : Numeral := ⟨t < 0, natText t.natAbs, none, none⟩

theorem ofInt_eq (t : Int) :
    Bytes.ofInt t = (if t < 0 then [ascii '-'] else []) ++ natText t.natAbs := by
  cases t with
  | ofNat n =>
    rw [if_neg (by simp), List.nil_append]
    exact ofAscii_toString n
  | negSucc n =>
    rw [if_pos (Int.negSucc_lt_zero n)]
    have htext : Bytes.ofInt (Int.negSucc n) = ascii '-' :: Bytes.ofAscii (toString (n + 1)) := by
      simp [Bytes.ofInt, Bytes.ofAscii, toString, Int.repr]
    rw [htext, ofAscii_toString]
    rfl

theorem readWhole_natText (n : Nat) {x : Bytes} (hx : NoDigit x) :
    readWhole (natText n ++ x) = .ok (natText n, x) := by
  rw [readWhole, readDigits_append (natText_ne_nil n) (fun _ => isDigit_of_mem_natText) hx]
  have hzero : ¬ ((natText n).head? = some (ascii '0') ∧ (natText n).length ≠ 1) := by
    rintro ⟨hhead, hlength⟩
    obtain rfl := head?_natText hhead
    exact hlength rfl
  simp only [hzero, if_false]

/-- The decimal text of an integer is its numeral. -/
theorem readNumeral_ofInt (t : Int) {x : Bytes} (hx : Stops x) :
    readNumeral (Bytes.ofInt t ++ x) = .ok (numeralOf t, x) := by
  have hminus : readMinus (Bytes.ofInt t ++ x) = (decide (t < 0), natText t.natAbs ++ x) := by
    rw [ofInt_eq]
    by_cases ht : t < 0
    · simp only [ht, if_true, List.cons_append, List.nil_append, readMinus, decide_true]
    · obtain ⟨d, digits, hdigits⟩ := List.exists_cons_of_ne_nil (natText_ne_nil t.natAbs)
      have hd : d ≠ ascii '-' := by
        rintro rfl
        exact absurd (isDigit_of_mem_natText (hdigits ▸ List.mem_cons_self)) (by decide)
      simp only [ht, if_false, List.nil_append, hdigits, List.cons_append, readMinus, hd, decide_false]
  have hfraction : readFraction x = .ok (none, x) := by
    cases x with
    | nil => rfl
    | cons b x =>
      have hb : b ≠ ascii '.' := by
        rintro rfl
        exact absurd (stops_cons.mp hx).2 (by decide)
      rw [readFraction, if_neg hb]
  rw [readNumeral, hminus]
  simp only [readWhole_natText _ hx.1, hfraction, readExponent_of_stops hx]
  rfl

/-- The numeral of a 64-bit integer names it. -/
theorem value?_numeralOf {t : Int} (ht : Millis.InRange t) :
    (numeralOf t).value? = some (.int t) := by
  obtain ⟨hlow, hhigh⟩ := ht
  have hlow' : -9223372036854775808 ≤ t := hlow
  have hhigh' : t ≤ 9223372036854775807 := hhigh
  have hword : t.natAbs ≤ maxWord := by
    have : maxWord = 18446744073709551615 := rfl
    omega
  rw [Numeral.value?, numeralOf]
  simp only [gather_natText hword, and_self, if_true]
  by_cases hneg : t < 0
  · have hfits : 0 < t.natAbs ∧ t.natAbs ≤ 9223372036854775808 := by omega
    have hvalue : -(t.natAbs : Int) = t := by omega
    simp only [hneg, decide_true, Bool.not_true, Bool.false_eq_true, if_false, hfits, and_self, if_true,
      hvalue]
  · have hvalue : (t.natAbs : Int) = t := by omega
    simp only [hneg, decide_false, Bool.not_false, if_true, hvalue]

/-- The decimal text of an integer is one lexeme. -/
theorem lex_ofInt (t : Int) {x : Bytes} (hx : Stops x) :
    lex (Bytes.ofInt t ++ x) = ⟨[], Bytes.ofInt t, .number (numeralOf t)⟩ :: lex x := by
  obtain ⟨b, tail, htext, hb⟩ :
      ∃ b tail, Bytes.ofInt t = b :: tail ∧ (b = ascii '-' ∨ Bytes.isDigit b = true) := by
    rw [ofInt_eq]
    by_cases ht : t < 0
    · exact ⟨ascii '-', natText t.natAbs, by simp [ht], Or.inl rfl⟩
    · obtain ⟨d, digits, hdigits⟩ := List.exists_cons_of_ne_nil (natText_ne_nil t.natAbs)
      exact ⟨d, digits, by simp [ht, hdigits],
        Or.inr (isDigit_of_mem_natText (hdigits ▸ List.mem_cons_self))⟩
  have hne : ∀ m, m ≠ ascii '-' → Bytes.isDigit m = false → b ≠ m := by
    rintro m hminus hdigit rfl
    obtain hb | hb := hb
    · exact hminus hb
    · exact Bool.noConfusion (hdigit.symm.trans hb)
  have hgap : isGap b = false := by
    simp only [isGap, hne 0x20 (by decide) (by decide), hne 0x09 (by decide) (by decide),
      hne 0x0A (by decide) (by decide), hne 0x0D (by decide) (by decide), decide_false, Bool.or_self]
  have hmark : punctuation? b = none := by
    simp only [punctuation?, hne (ascii '[') (by decide) (by decide),
      hne (ascii ']') (by decide) (by decide), hne (ascii '\x7b') (by decide) (by decide),
      hne (ascii '\x7d') (by decide) (by decide), hne (ascii ',') (by decide) (by decide),
      hne (ascii ':') (by decide) (by decide), if_false]
  have hword : word? b = none := by
    simp only [word?, hne (ascii 'n') (by decide) (by decide), hne (ascii 't') (by decide) (by decide),
      hne (ascii 'f') (by decide) (by decide), if_false]
  have hnumeral := readNumeral_ofInt t hx
  rw [htext] at hnumeral ⊢
  have hread : readToken b (tail ++ x) = (.number (numeralOf t), x) := by
    rw [readToken, hmark, hword]
    simp only [hne quote (by decide) (by decide), if_false]
    rw [← List.cons_append, hnumeral]
  exact lex_token hgap hread

theorem lex_ofInt_self (t : Int) :
    lex (Bytes.ofInt t) = [⟨[], Bytes.ofInt t, .number (numeralOf t)⟩] := by
  have hlex := lex_ofInt t stops_nil
  rwa [List.append_nil, lex_empty] at hlex

/-- The decimal text of a 64-bit integer holds the integer. -/
theorem read_ofInt {t : Int} (ht : Millis.InRange t) : Value.read (Bytes.ofInt t) = .ok (.int t) := by
  have hvalue : scalarValue (.number (numeralOf t)) = .ok (.int t) := by
    rw [scalarValue, value?_numeralOf ht]
  rw [Value.read, lex_ofInt_self, readValue, move, startValue]
  simp only [build, hvalue, place]

end EventReplay.Json
