import EventReplay.Calendar.Date

/-!
# Days of the calendar, counted

`Date.toDays` goes by a formula and `Date.ofDays` by an estimate of the year. Here the days are counted,
year by year and month by month (`Date.dayNumber`), and both agree with the count: the formula gives the
days since 1970-01-01 (`Date.toDays_eq`), and every day of a year that can be told has a date, which is
the one that `Date.ofDays` gives (`Date.isValid_ofDays`, `Date.toDays_ofDays`), in the only year that any
date of the day can have (`Date.IsValid.year_eq`).
-/

set_option autoImplicit false

namespace EventReplay.Date

/-! ## Counting -/

/-- The number of days of a year. -/
def yearLength (year : Int) : Nat := if isLeap year then 366 else 365

/-- The number of days of a month. -/
def monthLength (leap : Bool) : Nat → Nat
  | 2 => if leap then 29 else 28
  | 4 | 6 | 9 | 11 => 30
  | _ => 31

/-- The days before a year, from the start of year 0. -/
def daysBeforeYear : Nat → Nat
  | 0 => 0
  | year + 1 => daysBeforeYear year + yearLength year

/-- The days of a year before the month starts. -/
def daysBefore (leap : Bool) : Nat → Nat
  | 0 | 1 => 0
  | month + 2 => daysBefore leap (month + 1) + monthLength leap (month + 1)

/-- The number of a day, the first day of year 0 being number 0. -/
def dayNumber (year month day : Nat) : Nat :=
  daysBeforeYear year + daysBefore (isLeap year) month + (day - 1)

/-! ## Years -/

theorem yearStart_succ (year : Int) : yearStart (year + 1) = yearStart year + yearLength year := by
  simp only [yearStart, yearLength, isLeap]
  by_cases h4 : year % 4 = 0
  · by_cases h100 : year % 100 = 0
    · by_cases h400 : year % 400 = 0
      · simp [h4, h400]
        omega
      · simp [h4, h100, h400]
        omega
    · simp [h4, h100]
      omega
  · simp [h4]
    omega

theorem yearStart_mono {y z : Int} (h : y ≤ z) : yearStart y ≤ yearStart z := by
  simp only [yearStart]
  omega

theorem daysBeforeYear_eq (year : Nat) :
    (daysBeforeYear year : Int) = yearStart year - yearStart 0 := by
  induction year with
  | zero => simp [daysBeforeYear]
  | succ year ih =>
      have hsucc := yearStart_succ year
      rw [daysBeforeYear, Int.natCast_add, ih, Int.natCast_add, Int.natCast_one]
      omega

/-! ## Months -/

theorem daysBeforeMonth_eq (leap : Bool) {month : Nat} (h1 : 1 ≤ month) (h12 : month ≤ 12) :
    daysBeforeMonth leap month = daysBefore leap month := by
  have table : ∀ month < 13, 1 ≤ month → daysBeforeMonth leap month = daysBefore leap month := by
    cases leap <;> decide
  exact table month (by omega) h1

theorem daysInMonth_eq (leap : Bool) {month : Nat} (h1 : 1 ≤ month) (h12 : month ≤ 12) :
    daysInMonth leap month = monthLength leap month := by
  have table : ∀ month < 13, 1 ≤ month → daysInMonth leap month = monthLength leap month := by
    cases leap <;> decide
  exact table month (by omega) h1

theorem monthLength_le (leap : Bool) (month : Nat) : monthLength leap month ≤ 31 := by
  unfold monthLength
  split
  · cases leap <;> decide
  all_goals decide

/-- A day of the year lies in its month. -/
theorem monthOfDay_spec (leap : Bool) {day : Nat} (h : day < if leap then 366 else 365) :
    1 ≤ monthOfDay leap day ∧ monthOfDay leap day ≤ 12 ∧
      daysBeforeMonth leap (monthOfDay leap day) ≤ day ∧
      day < daysBeforeMonth leap (monthOfDay leap day + 1) := by
  have table : ∀ day < if leap then 366 else 365,
      1 ≤ monthOfDay leap day ∧ monthOfDay leap day ≤ 12 ∧
        daysBeforeMonth leap (monthOfDay leap day) ≤ day ∧
        day < daysBeforeMonth leap (monthOfDay leap day + 1) := by
    cases leap <;> decide +kernel
  exact table day h

theorem daysBeforeMonth_succ_le (leap : Bool) {month : Nat} (h1 : 1 ≤ month) (h12 : month ≤ 12) :
    daysBeforeMonth leap month ≤ daysBeforeMonth leap (month + 1) ∧
      daysBeforeMonth leap (month + 1) ≤ if leap then 366 else 365 := by
  have table : ∀ month < 13, 1 ≤ month →
      daysBeforeMonth leap month ≤ daysBeforeMonth leap (month + 1) ∧
        daysBeforeMonth leap (month + 1) ≤ if leap then 366 else 365 := by
    cases leap <;> decide
  exact table month (by omega) h1

/-! ## Dates -/

/-- The formula counts the days since 1970-01-01. -/
theorem toDays_eq {year month day : Nat} (h1 : 1 ≤ month) (h12 : month ≤ 12) (hday : 1 ≤ day) :
    toDays ⟨year, month, day⟩ = (dayNumber year month day : Int) - dayNumber 1970 1 1 := by
  have hyear := daysBeforeYear_eq year
  have hepoch := daysBeforeYear_eq 1970
  have hmonth := daysBeforeMonth_eq (isLeap year) h1 h12
  have hstart : yearStart (1970 : Nat) = 0 := by simp [yearStart]
  have hfirst : dayNumber 1970 1 1 = daysBeforeYear 1970 := by simp [dayNumber, daysBefore]
  rw [hfirst, dayNumber]
  simp only [toDays]
  omega

/-- A date lies in its year. -/
theorem IsValid.lies {date : Date} (h : date.IsValid) :
    yearStart date.year ≤ date.toDays ∧ date.toDays < yearStart (date.year + 1) := by
  obtain ⟨-, -, h1, h12, hday, hlast⟩ := h
  have hsucc := yearStart_succ date.year
  have hmonth := daysBeforeMonth_succ_le (isLeap date.year) h1 h12
  simp only [toDays, daysInMonth, yearLength] at *
  omega

/-- No two years have a day in common. -/
theorem yearOfDay_eq {days year : Int} (h : yearStart year ≤ days)
    (h' : days < yearStart (year + 1)) : yearOfDay days = year := by
  obtain ⟨hlow, hhigh⟩ := yearStart_yearOfDay days
  by_cases hlt : yearOfDay days < year
  · have := yearStart_mono (y := yearOfDay days + 1) (z := year) (by omega)
    omega
  · by_cases hgt : year < yearOfDay days
    · have := yearStart_mono (y := year + 1) (z := yearOfDay days) (by omega)
      omega
    · omega

/-- The days of the years that can be told. -/
def Told (days : Int) : Prop := yearStart firstYear ≤ days ∧ days < yearStart (lastYear + 1)

theorem IsValid.told {date : Date} (h : date.IsValid) : Told date.toDays := by
  obtain ⟨hlow, hhigh⟩ := h.lies
  have hfirst := yearStart_mono h.1
  have hlast := yearStart_mono (y := date.year + 1) (z := lastYear + 1) (by have := h.2.1; omega)
  simp only [Told]
  omega

/-- The parts of the date of a day. -/
theorem ofDays_spec (days : Int) :
    (ofDays days).year = yearOfDay days ∧ 1 ≤ (ofDays days).month ∧ (ofDays days).month ≤ 12 ∧
      1 ≤ (ofDays days).day ∧
      (ofDays days).day ≤ daysInMonth (isLeap (ofDays days).year) (ofDays days).month ∧
      (ofDays days).toDays = days := by
  obtain ⟨hlow, hhigh⟩ := yearStart_yearOfDay days
  have hsucc := yearStart_succ (yearOfDay days)
  have hday : (days - yearStart (yearOfDay days)).toNat <
      if isLeap (yearOfDay days) then 366 else 365 := by
    simp only [yearLength] at hsucc
    omega
  obtain ⟨h1, h12, hfrom, hbefore⟩ := monthOfDay_spec _ hday
  refine ⟨rfl, h1, h12, ?_, ?_, ?_⟩
  · simp only [ofDays]
    omega
  · simp only [ofDays, daysInMonth]
    omega
  · simp only [ofDays, toDays]
    omega

theorem toDays_ofDays (days : Int) : (ofDays days).toDays = days := (ofDays_spec days).2.2.2.2.2

theorem isValid_ofDays {days : Int} (h : Told days) : (ofDays days).IsValid := by
  obtain ⟨hyear, h1, h12, hday, hlast, -⟩ := ofDays_spec days
  obtain ⟨hlow, hhigh⟩ := yearStart_yearOfDay days
  obtain ⟨hfirst, hend⟩ := h
  refine ⟨?_, ?_, h1, h12, hday, hlast⟩
  · rw [hyear]
    by_cases hle : firstYear ≤ yearOfDay days
    · exact hle
    · have := yearStart_mono (y := yearOfDay days + 1) (z := firstYear) (by omega)
      omega
  · rw [hyear]
    by_cases hle : yearOfDay days ≤ lastYear
    · exact hle
    · have := yearStart_mono (y := lastYear + 1) (z := yearOfDay days) (by omega)
      omega

/-- The year of the date of a day is the one that any other date of it has. -/
theorem IsValid.year_eq {date : Date} (h : date.IsValid) :
    (ofDays date.toDays).year = date.year :=
  yearOfDay_eq h.lies.1 h.lies.2

end EventReplay.Date
