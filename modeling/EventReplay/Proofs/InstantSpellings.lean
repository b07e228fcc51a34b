import Mathlib.Data.List.TakeWhile
import EventReplay.Proofs.InstantReading

/-!
# One instant in all its spellings

RFC 3339, a date and a time of day with a `T` or a space between them, and a bare date are read by
different readers, and all by the same calendar (`Instant.spellings_agree`). What is written of an
instant is one of these spellings, or a count, and is read back (`Instant.read_format`).
-/

set_option autoImplicit false

namespace EventReplay

/-! ## Blanks around a text -/

theorem dropBlanks_of_blank {blanks : List Char} (h : ∀ c ∈ blanks, isBlank c = true)
    (cs : List Char) : dropBlanks (blanks ++ cs) = dropBlanks cs :=
  List.dropWhile_append_of_pos h

theorem trimBlanks_of_blanks {before after : List Char} (hbefore : ∀ c ∈ before, isBlank c = true)
    (hafter : ∀ c ∈ after, isBlank c = true) (cs : List Char) :
    trimBlanks (before ++ cs ++ after) = trimBlanks cs := by
  have hback : ∀ c ∈ after.reverse, isBlank c = true := fun c hc =>
    hafter c (List.mem_reverse.mp hc)
  rw [trimBlanks, trimBlanks, List.append_assoc, dropBlanks_of_blank hbefore]
  by_cases hcs : dropBlanks cs = []
  · have hall : dropBlanks (cs ++ after) = [] := by
      have hblank : ∀ c ∈ cs, isBlank c = true := List.dropWhile_eq_nil_iff.mp hcs
      rw [dropBlanks_of_blank hblank]
      exact List.dropWhile_eq_nil_iff.mpr hafter
    rw [hall, hcs]
  · have hfront : dropBlanks (cs ++ after) = dropBlanks cs ++ after := by
      rw [dropBlanks, List.dropWhile_append, if_neg (by simpa [dropBlanks] using hcs)]
      rfl
    rw [hfront, List.reverse_append, dropBlanks_of_blank hback]

namespace Instant

/-- Blanks around a text do not matter. -/
theorem read_of_blanks {before after : String} (hbefore : ∀ c ∈ before.toList, isBlank c = true)
    (hafter : ∀ c ∈ after.toList, isBlank c = true) (text : String) :
    read (before ++ text ++ after) = read text := by
  simp only [read, String.toList_append, trimBlanks_of_blanks hbefore hafter]

/-! ## Spellings -/

/-- A date with a time of day is read as the same instant in RFC 3339, with a `T` and with a space between
date and time: the exact one, cut off to milliseconds toward the past. An offset is taken off it, a bare
date is its midnight, and blanks around what can be read do not matter. -/
theorem spellings_agree (t : CivilTime) :
    let value := ⌊1000 * t.exactSeconds⌋
    read (String.ofList (t.dateText ++ 'T' :: (t.clockText ++ ['Z']))) = .ok value ∧
    read (String.ofList (t.dateText ++ 'T' :: t.clockText)) = .ok value ∧
    read (String.ofList (t.dateText ++ ' ' :: t.clockText)) = .ok value ∧
    (∀ hours minutes, hours < 24 → minutes < 60 →
      read (String.ofList (t.dateText ++ 'T' :: (t.clockText ++ zoneText '+' hours minutes))) =
        .ok (value - (hours * 60 + minutes) * 60000) ∧
      read (String.ofList (t.dateText ++ 'T' :: (t.clockText ++ zoneText '-' hours minutes))) =
        .ok (value + (hours * 60 + minutes) * 60000)) ∧
    read (String.ofList t.dateText) = .ok ⌊1000 * t.midnight.exactSeconds⌋ ∧
    ∀ (before text after : String) (millis : Int),
      (∀ c ∈ before.toList, isBlank c = true) → (∀ c ∈ after.toList, isBlank c = true) →
      read text = .ok millis → read (before ++ text ++ after) = .ok millis := by
  intro value
  have hvalue : t.millis = value := t.millis_eq_floor
  refine ⟨?_, ?_, ?_, ?_, ?_, ?_⟩
  · have hread := read_zoned t (show readZone ['Z'] = .ok (0, []) from rfl) (by simp)
      ⟨'Z', rfl, by decide⟩
    rw [hread, ← hvalue]
    simp
  · rw [read_unzoned t (.inl rfl), hvalue]
  · rw [read_unzoned t (.inr rfl), hvalue]
  · intro hours minutes hhours hminutes
    have hlast (sign : Char) : ∃ c ∈ (zoneText sign hours minutes).getLast?, isBlank c = false := by
      obtain ⟨c, hc, hdigit⟩ := endsWithDigit_zoneText sign hours hminutes
      exact ⟨c, hc, isBlank_digit hdigit⟩
    have hahead : value - (hours * 3600 + minutes * 60 : Int) * 1000 =
        value - (hours * 60 + minutes) * 60000 := by omega
    have hbehind : value - -(hours * 3600 + minutes * 60 : Int) * 1000 =
        value + (hours * 60 + minutes) * 60000 := by omega
    constructor
    · rw [read_zoned t (readZone_ahead hhours hminutes) (by simp [zoneText]) (hlast '+'), hvalue,
        hahead]
    · rw [read_zoned t (readZone_behind hhours hminutes) (by simp [zoneText]) (hlast '-'), hvalue,
        hbehind]
  · rw [read_date, CivilTime.millis_eq_floor]
  · intro before text after millis hbefore hafter hread
    rw [read_of_blanks hbefore hafter, hread]

/-- A tenth of a millisecond before 1970 counts as the millisecond before it. -/
theorem spellings_agree_before1970 :
    read "1969-12-31T23:59:59.9999Z" = .ok (-1) ∧ read "1969-12-31 23:59:59.9999" = .ok (-1) ∧
    read "1969-12-31T23:59:59.9999-23:59" = .ok 86339999 ∧ read "1969-12-31" = .ok (-86400000) ∧
    read ("\u00a0" ++ "1969-12-31" ++ "\n") = .ok (-86400000) := by
  let t : CivilTime :=
    { year := 1969, month := 12, day := 31, hour := 23, minute := 59, second := 59
      places := ['9', '9', '9', '9'] }
  have hvalue : ⌊1000 * t.exactSeconds⌋ = -1 := by
    rw [← t.millis_eq_floor]
    decide +kernel
  have hmidnight : ⌊1000 * t.midnight.exactSeconds⌋ = -86400000 := by
    rw [← t.midnight.millis_eq_floor]
    decide +kernel
  have hdateText : t.dateText = "1969-12-31".toList := by decide +kernel
  have hclockText : t.clockText = "23:59:59.9999".toList := by decide +kernel
  obtain ⟨hzulu, -, hspace, hoffset, hdate, hblanks⟩ := spellings_agree t
  have hbehind := (hoffset 23 59 (by decide) (by decide)).2
  rw [hvalue, hdateText, hclockText] at hzulu hspace hbehind
  rw [hmidnight, hdateText] at hdate
  exact ⟨hzulu, hspace, hbehind, hdate, hblanks _ _ _ _ (by simp [isBlank]) (by simp [isBlank]) hdate⟩

end Instant

/-! ## What is written of an instant -/

namespace CivilTime

open Instant (padded digitsValue format zoneText)

/-- The milliseconds of the day. -/
def ofDay (m : Int) : Nat := (m % 86400000).toNat

theorem ofDay_lt (m : Int) : ofDay m < 86400000 := by
  simp only [ofDay]
  omega

/-- The date and the time of day of an instant, if they are in the years 0 to 9999. -/
def ofMillis (m : Int) (hlow : 0 ≤ (Date.ofDays (m / 86400000)).year)
    (hhigh : (Date.ofDays (m / 86400000)).year ≤ 9999) : CivilTime :=
  have hdate := Date.ofDays_spec (m / 86400000)
  have hofDay := ofDay_lt m
  { year := (Date.ofDays (m / 86400000)).year.toNat
    month := (Date.ofDays (m / 86400000)).month
    day := (Date.ofDays (m / 86400000)).day
    hour := ofDay m / 3600000
    minute := ofDay m / 60000 % 60
    second := ofDay m / 1000 % 60
    places := if ofDay m % 1000 = 0 then [] else padded 3 (ofDay m % 1000)
    year_le := Int.toNat_le.mpr hhigh
    month_pos := hdate.2.1
    month_le := hdate.2.2.1
    day_pos := hdate.2.2.2.1
    day_le := by
      obtain ⟨-, h1, h12, -, hlast, -⟩ := hdate
      rw [Date.daysInMonth_eq _ h1 h12] at hlast
      rwa [Int.toNat_of_nonneg hlow]
    hour_lt := by omega
    minute_lt := by omega
    second_lt := by omega
    isDigit_of_mem := by
      split
      · simp
      · exact fun _ => Instant.isDigit_of_mem_padded
    length_le := by
      split
      · simp
      · rw [Instant.length_padded (by decide) (by omega)]
        decide }

variable {m : Int} (hlow : 0 ≤ (Date.ofDays (m / 86400000)).year)
    (hhigh : (Date.ofDays (m / 86400000)).year ≤ 9999)

theorem millis_ofMillis : (ofMillis m hlow hhigh).millis = m := by
  obtain ⟨-, h1, h12, hday, -, htoDays⟩ := Date.ofDays_spec (m / 86400000)
  have hdays : (ofMillis m hlow hhigh).days = m / 86400000 := by
    rw [← htoDays, days, ofMillis, ← Date.toDays_eq h1 h12 hday, Int.toNat_of_nonneg hlow]
  have hnano : (ofMillis m hlow hhigh).nanosecond = ofDay m % 1000 * 1000000 := by
    simp only [nanosecond, ofMillis]
    split
    · simp [digitsValue, *]
    · rw [Instant.digitsValue_padded, Instant.length_padded (by decide) (by omega)]
      norm_num
  have hofDay : (ofDay m : Int) = m % 86400000 := by
    simp only [ofDay]
    omega
  rw [millis, seconds, hdays, hnano]
  simp only [ofMillis]
  omega

/-- What is written of an instant in the years 0 to 9999 is a spelling in RFC 3339. -/
theorem format_eq : format m = String.ofList ((ofMillis m hlow hhigh).dateText ++
    'T' :: ((ofMillis m hlow hhigh).clockText ++ zoneText '+' 0 0)) := by
  have htold : ¬ (m / 86400000 < Date.yearStart Date.firstYear ∨
      Date.yearStart (Date.lastYear + 1) ≤ m / 86400000) := by
    obtain ⟨hfrom, hbefore⟩ := Date.yearStart_yearOfDay (m / 86400000)
    have hyear := (Date.ofDays_spec (m / 86400000)).1
    have hfirst := Date.yearStart_mono (y := Date.firstYear) (z := (Date.ofDays (m / 86400000)).year)
      (by simp only [Date.firstYear]; omega)
    have hlast := Date.yearStart_mono (y := (Date.ofDays (m / 86400000)).year + 1)
      (z := Date.lastYear + 1) (by simp only [Date.lastYear]; omega)
    rw [hyear] at hfirst hlast
    omega
  have hyear : Instant.yearText (Date.ofDays (m / 86400000)).year =
      padded 4 (Date.ofDays (m / 86400000)).year.toNat := by
    rw [Instant.yearText, if_pos ⟨hlow, hhigh⟩]
  have hplaces : (ofMillis m hlow hhigh).placesText =
      if ofDay m % 1000 = 0 then [] else '.' :: padded 3 (ofDay m % 1000) := by
    by_cases hzero : ofDay m % 1000 = 0
    · simp [placesText, ofMillis, hzero]
    · have hne : padded 3 (ofDay m % 1000) ≠ [] := by simp [padded]
      simp [placesText, ofMillis, hzero, hne]
  rw [format]
  simp only [htold, if_false, hyear, dateText, clockText, hplaces, List.append_assoc, List.cons_append]
  rfl

end CivilTime

namespace Instant

theorem toList_toString (m : Int) : (toString m).toList =
    (if m < 0 then ['-'] else []) ++ Nat.toDigits 10 m.natAbs := by
  cases m with
  | ofNat n => simp [toString, Int.repr, Nat.repr]
  | negSucc n =>
    rw [if_pos (Int.negSucc_lt_zero n)]
    simp [toString, Int.repr, Nat.repr]

/-- A count is read back. -/
theorem read_toString {m : Int} (hm : Millis.InRange m) : read (toString m) = .ok m := by
  have hne : Nat.toDigits 10 m.natAbs ≠ [] := Nat.toDigits_ne_nil
  have hdigits : ∀ c ∈ Nat.toDigits 10 m.natAbs, c.isDigit = true := fun c =>
    Nat.isDigit_of_mem_toDigits (by decide) (by decide)
  have hall : (Nat.toDigits 10 m.natAbs).all Char.isDigit = true := List.all_eq_true.mpr hdigits
  have hvalue : digitsValue (Nat.toDigits 10 m.natAbs) = m.natAbs := by
    rw [digitsValue_eq, Nat.ofDigitChars_toDigits (by decide) (by decide)]
  obtain ⟨d, digits, hcons⟩ := List.exists_cons_of_ne_nil hne
  have hd : d.isDigit = true := hdigits d (hcons ▸ List.mem_cons_self)
  have hcount : readCount (toString m).toList = some m := by
    rw [toList_toString]
    by_cases hneg : m < 0
    · have habs : -1 * (m.natAbs : Int) = m := by omega
      rw [if_pos hneg, List.singleton_append, readCount]
      simp only [hne, hall, hvalue, habs, hm, ne_eq, not_false_eq_true, and_self, if_true]
    · have habs : 1 * (m.natAbs : Int) = m := by omega
      rw [if_neg hneg, List.nil_append, readCount]
      · simp only [hne, hall, hvalue, habs, hm, ne_eq, not_false_eq_true, and_self, if_true]
      -- a digit is no sign
      · rintro rest hplus
        rw [hcons] at hplus
        exact ne_of_isDigit hd (by decide) (List.cons.inj hplus).1
      · rintro rest hminus
        rw [hcons] at hminus
        exact ne_of_isDigit hd (by decide) (List.cons.inj hminus).1
  have htrim : trimBlanks (toString m).toList = (toString m).toList := by
    rw [toList_toString]
    refine trimBlanks_eq_self ?_ ((endsWithDigit_of_digits hne hdigits).append _).isBlank_last
    by_cases hneg : m < 0
    · simp only [hneg, if_true, List.singleton_append, List.head?_cons, Option.mem_some_iff,
        forall_eq']
      decide
    · rw [if_neg hneg, List.nil_append, hcons]
      exact StartsWithDigit.isBlank_first ⟨d, rfl, hd⟩
  simp only [read, htrim, hcount]

/-- What is written of an instant is read back, if it lies in the years 0 to 9999, or in none that can
be told. -/
theorem read_format {m : Int} (hm : Millis.InRange m)
    (hyear : (∃ date : Date, date.IsValid ∧ date.toDays = m / 86400000 ∧
        0 ≤ date.year ∧ date.year ≤ 9999) ∨
      ∀ date : Date, date.IsValid → date.toDays ≠ m / 86400000) :
    read (format m) = .ok m := by
  rcases hyear with ⟨date, hvalid, hdays, hlow, hhigh⟩ | hnone
  · rw [← hvalid.year_eq, hdays] at hlow hhigh
    have hzone : readZone (zoneText '+' 0 0) = .ok (_, []) := readZone_ahead (by decide) (by decide)
    rw [CivilTime.format_eq hlow hhigh,
      read_zoned _ hzone (by simp [zoneText]) ⟨'0', by decide, by decide⟩,
      CivilTime.millis_ofMillis]
    simp
  · have htold : ¬ Date.Told (m / 86400000) := fun htold =>
      hnone _ (Date.isValid_ofDays htold) (Date.toDays_ofDays _)
    have hcount : format m = toString m := by
      rw [format]
      refine if_pos ?_
      simp only [Date.Told] at htold
      omega
    rw [hcount]
    exact read_toString hm

/-- The last millisecond of the leap day of year 0, and the earliest time of all, which has no date. -/
theorem read_format_leapDay :
    (Millis.InRange (-62162035200001) ∧ (⟨0, 2, 29⟩ : Date).IsValid ∧
      (⟨0, 2, 29⟩ : Date).toDays = -62162035200001 / 86400000 ∧
      read (format (-62162035200001)) = .ok (-62162035200001)) ∧
    (∀ date : Date, date.IsValid → date.toDays ≠ Millis.earliest / 86400000) ∧
    read (format Millis.earliest) = .ok Millis.earliest := by
  have hnone : ∀ date : Date, date.IsValid → date.toDays ≠ Millis.earliest / 86400000 := by
    intro date hvalid hdays
    have htold := hvalid.told
    rw [hdays] at htold
    exact absurd htold.1 (by decide)
  refine ⟨⟨by decide, by decide, by decide, ?_⟩, hnone, ?_⟩
  · exact read_format (by decide)
      (.inl ⟨⟨0, 2, 29⟩, by decide, by decide, by decide, by decide⟩)
  · exact read_format (by decide) (.inr hnone)

end Instant

end EventReplay
