import Mathlib.Data.Nat.Digits.Defs
import EventReplay.Proofs.CivilTime

/-!
# Reading instants

What each mark of a layout takes from a text in which it finds what it asks for, one lemma a mark, and
from them what a whole layout makes of a date with a time of day (`Instant.readMarks_date`,
`Instant.readMarks_clock`, `Instant.readMarks_zoned`). The readers are tried in turn; the last section
has what each spelling comes to when all before its own have failed (`Instant.read_zoned`,
`Instant.read_unzoned`, `Instant.read_date`).
-/

set_option autoImplicit false

namespace EventReplay

namespace Instant

/-! ## Rows of digits -/

theorem digitsValue_eq (digits : List Char) : digitsValue digits = Nat.ofDigitChars 10 digits 0 :=
  Nat.ofDigitChars_eq_foldl.symm

theorem isDigit_of_mem_padded {width n : Nat} {c : Char} (h : c ∈ padded width n) :
    c.isDigit = true := by
  rcases List.mem_append.mp h with h | h
  · rw [List.eq_of_mem_replicate h]
    rfl
  · exact Nat.isDigit_of_mem_toDigits (by decide) (by decide) h

theorem length_padded {width n : Nat} (hwidth : 0 < width) (h : n < 10 ^ width) :
    (padded width n).length = width := by
  have hle : (Nat.toDigits 10 n).length ≤ width := Nat.toDigits_length 10 n width hwidth h
  simp only [padded, List.length_append, List.length_replicate]
  omega

/-- Zeros in front of a number do not change it. -/
theorem digitsValue_padded (width n : Nat) : digitsValue (padded width n) = n := by
  have hzeros (k : Nat) :
      (List.replicate k '0').foldl (fun n c => 10 * n + (c.toNat - '0'.toNat)) 0 = 0 := by
    induction k with
    | zero => rfl
    | succ k ih => simpa [List.replicate_succ] using ih
  calc digitsValue (padded width n)
      = digitsValue (Nat.toDigits 10 n) := by
        simp only [digitsValue, padded, List.foldl_append, hzeros]
    _ = n := by rw [digitsValue_eq, Nat.ofDigitChars_toDigits (by decide) (by decide)]

theorem takeWhile_eq_nil {p : Char → Bool} {cs : List Char} (h : ∀ c ∈ cs.head?, p c = false) :
    cs.takeWhile p = [] := by
  cases cs with
  | nil => rfl
  | cons c cs => simp [h c rfl]

theorem dropWhile_eq_self {p : Char → Bool} {cs : List Char} (h : ∀ c ∈ cs.head?, p c = false) :
    cs.dropWhile p = cs := by
  cases cs with
  | nil => rfl
  | cons c cs => rw [List.dropWhile_cons_of_neg (by simp [h c rfl])]

theorem ne_of_isDigit {c d : Char} (hc : c.isDigit = true) (hd : d.isDigit = false) : c ≠ d := by
  rintro rfl
  exact absurd (hc.symm.trans hd) (by decide)

theorem spanDigits_append {width : Nat} {digits rest : List Char}
    (hdigits : ∀ c ∈ digits, c.isDigit = true) (hlength : digits.length ≤ width)
    (hrest : digits.length < width → ∀ c ∈ rest.head?, c.isDigit = false) :
    spanDigits width (digits ++ rest) = (digits, rest) := by
  have hspan : ((digits ++ rest).take width).takeWhile Char.isDigit = digits := by
    rw [List.take_append, List.take_of_length_le hlength, List.takeWhile_append_of_pos hdigits]
    by_cases hlt : digits.length < width
    · rw [takeWhile_eq_nil, List.append_nil]
      intro c hc
      rw [List.head?_take, if_neg (by omega)] at hc
      exact hrest hlt c hc
    · have hzero : width - digits.length = 0 := by omega
      rw [hzero, List.take_zero, List.takeWhile_nil, List.append_nil]
  simp only [spanDigits, hspan, List.drop_left]

theorem readNumber_append {width : Nat} {digits rest : List Char} (hne : digits ≠ [])
    (hdigits : ∀ c ∈ digits, c.isDigit = true) (hlength : digits.length ≤ width)
    (hrest : digits.length < width → ∀ c ∈ rest.head?, c.isDigit = false) :
    readNumber width (digits ++ rest) = .ok (digitsValue digits, rest) := by
  obtain ⟨c, digits, rfl⟩ := List.exists_cons_of_ne_nil hne
  rw [readNumber, spanDigits_append hdigits hlength hrest]

theorem readNumber_padded {width n : Nat} (hwidth : 0 < width) (h : n < 10 ^ width)
    (rest : List Char) : readNumber width (padded width n ++ rest) = .ok (n, rest) := by
  have hlength := length_padded hwidth h
  have hne : padded width n ≠ [] := List.ne_nil_of_length_pos (by omega)
  rw [readNumber_append hne (fun c => isDigit_of_mem_padded) hlength.le (by omega),
    digitsValue_padded]

theorem readExact_padded {width n : Nat} (hwidth : 0 < width) (h : n < 10 ^ width)
    (rest : List Char) : readExact width (padded width n ++ rest) = .ok (n, rest) := by
  have hlength := length_padded hwidth h
  rw [readExact, spanDigits_append (fun c => isDigit_of_mem_padded) hlength.le (by omega)]
  simp only [hlength, if_true, digitsValue_padded]

/-! ## Ends of a text -/

/-- A text starts with a digit. -/
def StartsWithDigit (cs : List Char) : Prop := ∃ c ∈ cs.head?, c.isDigit = true

/-- A text ends with a digit. -/
def EndsWithDigit (cs : List Char) : Prop := ∃ c ∈ cs.getLast?, c.isDigit = true

theorem isBlank_digit {c : Char} (h : c.isDigit = true) : isBlank c = false := by
  have hrange : 48 ≤ c.toNat ∧ c.toNat ≤ 57 := by
    simpa [Char.isDigit, UInt32.le_iff_toNat_le] using h
  obtain ⟨hlow, hhigh⟩ := hrange
  simp only [isBlank, Bool.or_eq_false_iff, Bool.and_eq_false_imp, decide_eq_false_iff_not,
    decide_eq_true_eq]
  omega

theorem StartsWithDigit.exists_cons {cs : List Char} (h : StartsWithDigit cs) :
    ∃ c rest, cs = c :: rest ∧ c.isDigit = true := by
  obtain ⟨c, hc, hdigit⟩ := h
  exact ⟨c, cs.tail, (List.cons_head?_tail hc).symm, hdigit⟩

theorem StartsWithDigit.isBlank_first {cs : List Char} (h : StartsWithDigit cs) :
    ∀ c ∈ cs.head?, isBlank c = false := by
  obtain ⟨d, hd, hdigit⟩ := h
  intro c hc
  rw [Option.mem_unique hc hd]
  exact isBlank_digit hdigit

theorem EndsWithDigit.isBlank_last {cs : List Char} (h : EndsWithDigit cs) :
    ∀ c ∈ cs.getLast?, isBlank c = false := by
  obtain ⟨d, hd, hdigit⟩ := h
  intro c hc
  rw [Option.mem_unique hc hd]
  exact isBlank_digit hdigit

theorem StartsWithDigit.dropBlanks_eq {cs : List Char} (h : StartsWithDigit cs) :
    dropBlanks cs = cs :=
  dropWhile_eq_self h.isBlank_first

theorem startsWithDigit_padded {width n : Nat} (hwidth : 0 < width) (h : n < 10 ^ width)
    (cs : List Char) : StartsWithDigit (padded width n ++ cs) := by
  have hlength := length_padded hwidth h
  obtain ⟨c, digits, hpadded⟩ := List.exists_cons_of_length_pos (l := padded width n) (by omega)
  exact ⟨c, by simp [hpadded], isDigit_of_mem_padded (hpadded ▸ List.mem_cons_self)⟩

theorem endsWithDigit_of_digits {digits : List Char} (hne : digits ≠ [])
    (h : ∀ c ∈ digits, c.isDigit = true) : EndsWithDigit digits :=
  ⟨digits.getLast hne, List.getLast?_eq_some_getLast hne, h _ (List.getLast_mem hne)⟩

theorem endsWithDigit_padded {width n : Nat} (hwidth : 0 < width) (h : n < 10 ^ width) :
    EndsWithDigit (padded width n) :=
  endsWithDigit_of_digits (List.ne_nil_of_length_pos (by rw [length_padded hwidth h]; exact hwidth))
    fun _ => isDigit_of_mem_padded

theorem EndsWithDigit.append {cs : List Char} (h : EndsWithDigit cs) (before : List Char) :
    EndsWithDigit (before ++ cs) := by
  obtain ⟨c, hc, hdigit⟩ := h
  refine ⟨c, ?_, hdigit⟩
  rw [List.getLast?_append, Option.mem_def.mp hc]
  rfl

/-! ## One mark of a layout -/

variable (parts : Parts) (marks : List Mark) (rest : List Char)

theorem Field.lt_of_le (f : Field) {n : Nat} (h : n ≤ f.range.2) : n < 10 ^ 2 := by
  have hmax : f.range.2 ≤ 60 := by cases f <;> decide
  omega

theorem readMarks_fullYear {n : Nat} (h : n ≤ 9999) :
    readMarks parts (.fullYear :: marks) (padded 4 n ++ rest) =
      readMarks { parts with year := n } marks rest := by
  rw [readMarks, readExact_padded (by decide) (by omega)]
  rfl

theorem readMarks_year {n : Nat} (h : n ≤ 9999) :
    readMarks parts (.year :: marks) (padded 4 n ++ rest) =
      readMarks { parts with year := n } marks rest := by
  have hread : readYear (padded 4 n ++ rest) = .ok ((n : Int), rest) := by
    have hnumber : readNumber 4 (padded 4 n ++ rest) = .ok (n, rest) :=
      readNumber_padded (by decide) (by omega) rest
    have hstart : StartsWithDigit (padded 4 n ++ rest) :=
      startsWithDigit_padded (by decide) (by omega) rest
    obtain ⟨c, digits, hpadded, hc⟩ := hstart.exists_cons
    have hminus : c ≠ '-' := ne_of_isDigit hc (by decide)
    have hplus : c ≠ '+' := ne_of_isDigit hc (by decide)
    rw [hpadded] at hnumber ⊢
    unfold readYear
    split
    · rename_i heq
      exact absurd (List.cons.inj heq).1 hminus
    · rename_i heq
      exact absurd (List.cons.inj heq).1 hplus
    · rw [hnumber]
      show checkYear n rest = _
      rw [checkYear, if_pos (by omega)]
  rw [readMarks, (startsWithDigit_padded (by decide) (by omega) rest).dropBlanks_eq, hread]
  rfl

theorem readMarks_fullField {f : Field} {n : Nat} (h : f.range.1 ≤ n ∧ n ≤ f.range.2) :
    readMarks parts (.fullField f :: marks) (padded 2 n ++ rest) =
      readMarks (parts.set f n) marks rest := by
  rw [readMarks, readExact_padded (by decide) (f.lt_of_le h.2)]
  simp only [bind, Except.bind, setField, if_pos h]

theorem readMarks_field {f : Field} {n : Nat} (h : f.range.1 ≤ n ∧ n ≤ f.range.2) :
    readMarks parts (.field f :: marks) (padded 2 n ++ rest) =
      readMarks (parts.set f n) marks rest := by
  rw [readMarks, (startsWithDigit_padded (by decide) (f.lt_of_le h.2) rest).dropBlanks_eq,
    readNumber_padded (by decide) (f.lt_of_le h.2)]
  simp only [bind, Except.bind, setField, if_pos h]

theorem readMarks_oneOf {choices : List Char} {c : Char} (h : choices.contains c = true) :
    readMarks parts (.oneOf choices :: marks) (c :: rest) = readMarks parts marks rest := by
  rw [readMarks]
  simp only [h, if_true]

theorem readMarks_fraction {digits : List Char} (hne : digits ≠ [])
    (hdigits : ∀ c ∈ digits, c.isDigit = true) (hlength : digits.length ≤ 9)
    (hrest : ∀ c ∈ rest.head?, c.isDigit = false) :
    readMarks parts (.fraction :: marks) ('.' :: (digits ++ rest)) =
      readMarks { parts with nanosecond := digitsValue digits * 10 ^ (9 - digits.length) } marks
        rest := by
  have hnanos : readNanos (digits ++ rest) =
      .ok (digitsValue digits * 10 ^ (9 - digits.length), rest) := by
    rw [readNanos, readNumber_append hne hdigits hlength fun _ => hrest]
    simp [dropWhile_eq_self hrest]
  rw [readMarks, hnanos]
  rfl

theorem readMarks_fraction_none (h : ∀ c ∈ rest.head?, c ≠ '.') :
    readMarks parts (.fraction :: marks) rest = readMarks parts marks rest := by
  rw [readMarks]
  rintro rest rfl
  exact h '.' rfl rfl

theorem readMarks_zone {zone : List Char} {offset : Int} (h : readZone zone = .ok (offset, [])) :
    readMarks parts [.zone] zone = .ok { parts with offset } := by
  rw [readMarks, h]
  rfl

/-! ## Layouts -/

theorem readMarks_date (t : CivilTime) :
    readMarks parts (dateLayout ++ marks) (t.dateText ++ rest) =
      readMarks { parts with year := t.year, month := t.month, day := t.day } marks rest := by
  simp only [dateLayout, CivilTime.dateText, List.cons_append, List.nil_append, List.append_assoc]
  rw [readMarks_year _ _ _ t.year_le, readMarks_oneOf _ _ _ (by decide),
    readMarks_field _ _ _ t.month_range, readMarks_oneOf _ _ _ (by decide),
    readMarks_field _ _ _ t.day_range]
  rfl

theorem readMarks_places (t : CivilTime) (hnone : parts.nanosecond = 0)
    (hrest : ∀ c ∈ rest.head?, c.isDigit = false ∧ c ≠ '.') :
    readMarks parts (.fraction :: marks) (t.placesText ++ rest) =
      readMarks { parts with nanosecond := t.nanosecond } marks rest := by
  by_cases hplaces : t.places = []
  · have hzero : t.nanosecond = parts.nanosecond := by
      simp [CivilTime.nanosecond, hplaces, digitsValue, hnone]
    rw [CivilTime.placesText, if_pos hplaces, List.nil_append, hzero,
      readMarks_fraction_none _ _ _ fun c hc => (hrest c hc).2]
  · rw [CivilTime.placesText, if_neg hplaces, List.cons_append,
      readMarks_fraction _ _ _ hplaces t.isDigit_of_mem t.length_le fun c hc => (hrest c hc).1]
    rfl

theorem readMarks_clock (t : CivilTime) (hnone : parts.nanosecond = 0)
    (hrest : ∀ c ∈ rest.head?, c.isDigit = false ∧ c ≠ '.') :
    readMarks parts (timeLayout ++ marks) (t.clockText ++ rest) =
      readMarks { parts with
        hour := t.hour, minute := t.minute, second := t.second, nanosecond := t.nanosecond } marks
        rest := by
  simp only [timeLayout, CivilTime.clockText, List.cons_append, List.nil_append, List.append_assoc]
  rw [readMarks_field _ _ _ t.hour_range, readMarks_oneOf _ _ _ (by decide),
    readMarks_field _ _ _ t.minute_range, readMarks_oneOf _ _ _ (by decide),
    readMarks_field _ _ _ t.second_range, readMarks_places _ _ _ t (by exact hnone) hrest]
  rfl

theorem readMarks_fullDate (t : CivilTime) :
    readMarks parts (.fullYear :: .oneOf ['-'] :: .fullField .month :: .oneOf ['-'] ::
        .fullField .day :: marks) (t.dateText ++ rest) =
      readMarks { parts with year := t.year, month := t.month, day := t.day } marks rest := by
  simp only [CivilTime.dateText, List.cons_append, List.append_assoc]
  rw [readMarks_fullYear _ _ _ t.year_le, readMarks_oneOf _ _ _ (by decide),
    readMarks_fullField _ _ _ t.month_range, readMarks_oneOf _ _ _ (by decide),
    readMarks_fullField _ _ _ t.day_range]
  rfl

theorem readMarks_zoned (t : CivilTime) {c : Char} (zone : List Char)
    (hc : ['T', 't', ' '].contains c = true)
    (hzone : ∀ c ∈ zone.head?, c.isDigit = false ∧ c ≠ '.') :
    readMarks {} zonedLayout (t.dateText ++ c :: (t.clockText ++ zone)) =
      readMarks t.parts [.zone] zone := by
  rw [zonedLayout, readMarks_fullDate, readMarks_oneOf _ _ _ hc]
  simp only [CivilTime.clockText, List.cons_append, List.append_assoc]
  rw [readMarks_fullField _ _ _ t.hour_range, readMarks_oneOf _ _ _ (by decide),
    readMarks_fullField _ _ _ t.minute_range, readMarks_oneOf _ _ _ (by decide),
    readMarks_fullField _ _ _ t.second_range, readMarks_places _ _ _ t rfl hzone]
  rfl

/-! ## Ends of a date and of a time of day -/

theorem endsWithDigit_clockText (t : CivilTime) : EndsWithDigit t.clockText := by
  have hsecond : EndsWithDigit (padded 2 t.second) :=
    endsWithDigit_padded (by decide) (Field.second.lt_of_le t.second_range.2)
  by_cases hplaces : t.places = []
  · simp only [CivilTime.clockText, CivilTime.placesText, hplaces, if_true, List.append_nil]
    exact (hsecond.append [':']).append _
  · have hlast := endsWithDigit_of_digits hplaces t.isDigit_of_mem
    simp only [CivilTime.clockText, CivilTime.placesText, hplaces, if_false]
    exact (hlast.append ['.']).append _

theorem startsWithDigit_clockText (t : CivilTime) : StartsWithDigit t.clockText := by
  simp only [CivilTime.clockText, List.append_assoc]
  exact startsWithDigit_padded (by decide) (Field.hour.lt_of_le t.hour_range.2) _

theorem startsWithDigit_dateText (t : CivilTime) (cs : List Char) :
    StartsWithDigit (t.dateText ++ cs) := by
  simp only [CivilTime.dateText, List.append_assoc]
  exact startsWithDigit_padded (by decide) (Nat.lt_succ_of_le t.year_le) _

theorem endsWithDigit_dateText (t : CivilTime) : EndsWithDigit t.dateText := by
  have hday : EndsWithDigit (padded 2 t.day) :=
    endsWithDigit_padded (by decide) (Field.day.lt_of_le t.day_range.2)
  exact (hday.append ['-']).append _

/-- Nothing is trimmed off a text with no blank at either end. -/
theorem trimBlanks_eq_self {cs : List Char} (hfirst : ∀ c ∈ cs.head?, isBlank c = false)
    (hlast : ∀ c ∈ cs.getLast?, isBlank c = false) : trimBlanks cs = cs := by
  have hfront : dropBlanks cs = cs := dropWhile_eq_self hfirst
  have hback : dropBlanks cs.reverse = cs.reverse := dropWhile_eq_self fun c hc => by
    rw [List.head?_reverse] at hc
    exact hlast c hc
  rw [trimBlanks, hfront, hback, List.reverse_reverse]

/-- A text with a hyphen behind its first digit is no count. -/
theorem readCount_eq_none {cs : List Char} (h : StartsWithDigit cs) (hyphen : '-' ∈ cs) :
    readCount cs = none := by
  obtain ⟨c, hc, hdigit⟩ := h
  have hall : cs.all Char.isDigit = false := List.all_eq_false.mpr ⟨'-', hyphen, by decide⟩
  unfold readCount
  split
  · exact absurd (by simpa using hc.symm) (ne_of_isDigit hdigit (d := '+') (by decide))
  · exact absurd (by simpa using hc.symm) (ne_of_isDigit hdigit (d := '-') (by decide))
  · simp [hall]

theorem hyphen_mem_dateText (t : CivilTime) (cs : List Char) : '-' ∈ t.dateText ++ cs := by
  simp [CivilTime.dateText]

/-! ## Zones -/

/-- The text of an offset: a sign, hours and minutes. -/
def zoneText (sign : Char) (hours minutes : Nat) : List Char :=
  sign :: padded 2 hours ++ ':' :: padded 2 minutes

theorem endsWithDigit_zoneText (sign : Char) (hours : Nat) {minutes : Nat} (h : minutes < 60) :
    EndsWithDigit (zoneText sign hours minutes) := by
  have hminutes : EndsWithDigit (padded 2 minutes) := endsWithDigit_padded (by decide) (by omega)
  exact (hminutes.append [':']).append _

theorem readExact_zone {hours minutes : Nat} (hhours : hours < 24) (hminutes : minutes < 60) :
    readExact 2 (padded 2 hours ++ ':' :: padded 2 minutes) =
      .ok (hours, ':' :: padded 2 minutes) ∧
    readExact 2 (padded 2 minutes) = .ok (minutes, []) := by
  constructor
  · exact readExact_padded (by decide) (by omega) _
  · have hread : readExact 2 (padded 2 minutes ++ []) = .ok (minutes, []) :=
      readExact_padded (by decide) (by omega) []
    rwa [List.append_nil] at hread

theorem readZone_ahead {hours minutes : Nat} (hhours : hours < 24) (hminutes : minutes < 60) :
    readZone (zoneText '+' hours minutes) = .ok (hours * 3600 + minutes * 60, []) := by
  obtain ⟨hfirst, hsecond⟩ := readExact_zone hhours hminutes
  simp [zoneText, readZone, hfirst, hsecond, hhours, hminutes]

theorem readZone_behind {hours minutes : Nat} (hhours : hours < 24) (hminutes : minutes < 60) :
    readZone (zoneText '-' hours minutes) = .ok (-(hours * 3600 + minutes * 60), []) := by
  obtain ⟨hfirst, hsecond⟩ := readExact_zone hhours hminutes
  simp [zoneText, readZone, hfirst, hsecond, hhours, hminutes]

/-! ## The readers in turn -/

variable (t : CivilTime)

/-- A text in RFC 3339 names the instant of its date and time, less the offset. -/
theorem read_zoned {zone : List Char} {offset : Int} (hzone : readZone zone = .ok (offset, []))
    (hfirst : ∀ c ∈ zone.head?, c.isDigit = false ∧ c ≠ '.')
    (hlast : ∃ c ∈ zone.getLast?, isBlank c = false) :
    read (String.ofList (t.dateText ++ 'T' :: (t.clockText ++ zone))) =
      .ok (t.millis - offset * 1000) := by
  have hstart := startsWithDigit_dateText t ('T' :: (t.clockText ++ zone))
  have htrim : trimBlanks (t.dateText ++ 'T' :: (t.clockText ++ zone)) =
      t.dateText ++ 'T' :: (t.clockText ++ zone) := by
    refine trimBlanks_eq_self hstart.isBlank_first fun c hc => ?_
    obtain ⟨d, hd, hblank⟩ := hlast
    have hend : (t.dateText ++ 'T' :: (t.clockText ++ zone)).getLast? = some d := by
      rw [← List.singleton_append, ← List.append_assoc, ← List.append_assoc, List.getLast?_append,
        Option.mem_def.mp hd]
      rfl
    rw [Option.mem_unique hc hend]
    exact hblank
  have hlayout : readLayout zonedLayout (t.dateText ++ 'T' :: (t.clockText ++ zone)) =
      .ok (t.millis - offset * 1000) := by
    rw [readLayout, readMarks_zoned t zone (by decide) hfirst, readMarks_zone _ hzone]
    exact t.instant_parts offset
  simp only [read, String.toList_ofList, htrim, readCount_eq_none hstart (hyphen_mem_dateText t _),
    hlayout]

/-- What is left to read of a date and a time of day once the date has been read. -/
theorem readLayout_clock (marks : List Mark) (c : Char)
    (hmarks : ∀ parts, readMarks parts (marks ++ timeLayout) (c :: t.clockText) =
      readMarks parts timeLayout t.clockText) :
    readLayout (dateLayout ++ marks ++ timeLayout) (t.dateText ++ c :: t.clockText) =
      .ok t.millis := by
  have hclock := readMarks_clock { year := t.year, month := t.month, day := t.day } [] [] t rfl
    (by simp)
  rw [List.append_nil, List.append_nil] at hclock
  rw [readLayout, List.append_assoc, readMarks_date, hmarks, hclock]
  have hinstant := t.instant_parts 0
  rw [Int.zero_mul, Int.sub_zero] at hinstant
  exact hinstant

/-- A text that ends with the time of day names the instant of its date and time. -/
theorem read_unzoned {c : Char} (hc : c = 'T' ∨ c = ' ') :
    read (String.ofList (t.dateText ++ c :: t.clockText)) = .ok t.millis := by
  have hstart := startsWithDigit_dateText t (c :: t.clockText)
  have htrim : trimBlanks (t.dateText ++ c :: t.clockText) = t.dateText ++ c :: t.clockText := by
    refine trimBlanks_eq_self hstart.isBlank_first (EndsWithDigit.isBlank_last ?_)
    exact ((endsWithDigit_clockText t).append [c]).append _
  have hcount := readCount_eq_none hstart (hyphen_mem_dateText t _)
  -- a zone is asked for and the text has come to its end
  have hzoned : readLayout zonedLayout (t.dateText ++ c :: t.clockText) = .error .tooShort := by
    have hseparator : ['T', 't', ' '].contains c = true := by
      rcases hc with rfl | rfl <;> decide
    have hmarks := readMarks_zoned t [] hseparator (by simp)
    rw [List.append_nil] at hmarks
    rw [readLayout, hmarks]
    rfl
  rcases hc with rfl | rfl
  · have hlayout := readLayout_clock t [.oneOf ['T']] 'T' fun parts =>
      readMarks_oneOf _ _ _ (by decide)
    simp only [read, String.toList_ofList, htrim, hcount, hzoned, hlayout]
  · have hother : readLayout (dateLayout ++ [.oneOf ['T']] ++ timeLayout)
        (t.dateText ++ ' ' :: t.clockText) = .error .invalid := by
      rw [readLayout, List.append_assoc, readMarks_date]
      rfl
    have hlayout := readLayout_clock t [.blanks] ' ' fun parts => by
      rw [List.singleton_append, readMarks, dropBlanks, List.dropWhile_cons_of_pos (by decide),
        ← dropBlanks, (startsWithDigit_clockText t).dropBlanks_eq]
    simp only [read, String.toList_ofList, htrim, hcount, hzoned, hother, hlayout]

/-- What a layout that begins with a date makes of a date alone. -/
theorem readLayout_date (marks : List Mark) :
    readLayout (dateLayout ++ marks) t.dateText =
      (readMarks { year := t.year, month := t.month, day := t.day } marks []).bind
        Parts.instant := by
  have hmarks := readMarks_date {} marks [] t
  rw [List.append_nil] at hmarks
  rw [readLayout, hmarks]
  rfl

/-- A text that is a date names its midnight. -/
theorem read_date : read (String.ofList t.dateText) = .ok t.midnight.millis := by
  have hstart := startsWithDigit_dateText t []
  have hyphen := hyphen_mem_dateText t []
  rw [List.append_nil] at hstart hyphen
  have htrim := trimBlanks_eq_self hstart.isBlank_first (endsWithDigit_dateText t).isBlank_last
  -- the other layouts ask for more where the text has come to its end
  have hzoned : readLayout zonedLayout t.dateText = .error .tooShort := by
    have hmarks := readMarks_fullDate {} (zonedLayout.drop 5) [] t
    rw [List.append_nil] at hmarks
    rw [readLayout, zonedLayout]
    exact congrArg (Except.bind · Parts.instant) hmarks
  have hclock : readLayout (dateLayout ++ [.oneOf ['T']] ++ timeLayout) t.dateText =
      .error .tooShort := by
    rw [List.append_assoc, readLayout_date]
    rfl
  have hblanks : readLayout (dateLayout ++ [.blanks] ++ timeLayout) t.dateText =
      .error .tooShort := by
    rw [List.append_assoc, readLayout_date]
    rfl
  have hdate : readLayout dateLayout t.dateText = .ok t.midnight.millis := by
    have hmidnight := t.midnight.instant_parts 0
    rw [Int.zero_mul, Int.sub_zero] at hmidnight
    have hparts : { year := t.year, month := t.month, day := t.day } =
        { t.midnight.parts with offset := 0 } := by
      simp [CivilTime.parts, CivilTime.midnight, CivilTime.nanosecond, digitsValue]
    rw [← List.append_nil dateLayout, readLayout_date, readMarks, hparts]
    exact hmidnight
  simp only [read, String.toList_ofList, htrim, readCount_eq_none hstart hyphen, hzoned, hclock,
    hblanks, hdate]

end Instant

end EventReplay
