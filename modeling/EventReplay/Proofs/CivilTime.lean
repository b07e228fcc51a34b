import Mathlib.Data.Rat.Floor
import EventReplay.Calendar.Instant
import EventReplay.Proofs.DayCount

/-!
# Dates with a time of day

A date of the years 0 to 9999 and a time of day with up to nine decimal places of the second, as it is
written (`CivilTime.dateText`, `CivilTime.clockText`), and the instant that it names on a clock of UTC:
exactly, by counting days and summing the places (`CivilTime.exactSeconds`), and in whole milliseconds as
a reader works it out (`CivilTime.millis`), which is the former cut off toward the past
(`CivilTime.millis_eq_floor`).
-/

set_option autoImplicit false

namespace EventReplay

/-- A date of the years 0 to 9999 and a time of day. -/
structure CivilTime where
  year : Nat
  month : Nat
  day : Nat
  hour : Nat := 0
  minute : Nat := 0
  second : Nat := 0
  /-- The digits of the second's decimal places. -/
  places : List Char := []
  year_le : year ≤ 9999 := by decide
  month_pos : 1 ≤ month := by decide
  month_le : month ≤ 12 := by decide
  day_pos : 1 ≤ day := by decide
  day_le : day ≤ Date.monthLength (Date.isLeap year) month := by decide
  hour_lt : hour < 24 := by decide
  minute_lt : minute < 60 := by decide
  second_lt : second < 60 := by decide
  isDigit_of_mem : ∀ c ∈ places, c.isDigit = true := by simp
  length_le : places.length ≤ 9 := by decide

namespace CivilTime

open Instant (Field Parts padded digitsValue)

variable (t : CivilTime)

theorem month_range : Field.month.range.1 ≤ t.month ∧ t.month ≤ Field.month.range.2 :=
  ⟨t.month_pos, t.month_le⟩

theorem day_range : Field.day.range.1 ≤ t.day ∧ t.day ≤ Field.day.range.2 :=
  ⟨t.day_pos, t.day_le.trans (Date.monthLength_le ..)⟩

theorem hour_range : Field.hour.range.1 ≤ t.hour ∧ t.hour ≤ Field.hour.range.2 :=
  ⟨Nat.zero_le _, Nat.le_of_lt_succ t.hour_lt⟩

theorem minute_range : Field.minute.range.1 ≤ t.minute ∧ t.minute ≤ Field.minute.range.2 :=
  ⟨Nat.zero_le _, Nat.le_of_lt_succ t.minute_lt⟩

theorem second_range : Field.second.range.1 ≤ t.second ∧ t.second ≤ Field.second.range.2 :=
  ⟨Nat.zero_le _, t.second_lt.le⟩

/-! ## Its text -/

/-- Year, month and day with hyphens between them. -/
def dateText : List Char :=
  padded 4 t.year ++ '-' :: padded 2 t.month ++ '-' :: padded 2 t.day

/-- The decimal places after a point, or nothing. -/
def placesText : List Char := if t.places = [] then [] else '.' :: t.places

/-- Hour, minute and second with colons between them, and the decimal places. -/
def clockText : List Char :=
  padded 2 t.hour ++ ':' :: padded 2 t.minute ++ ':' :: padded 2 t.second ++ t.placesText

example :
    ({ year := 2016, month := 2, day := 29, hour := 23, places := ['2', '5'] } : CivilTime).clockText =
      "23:00:00.25".toList := by
  decide

/-- The day at midnight. -/
def midnight : CivilTime :=
  { t with
    hour := 0, minute := 0, second := 0, places := []
    hour_lt := by decide, minute_lt := by decide, second_lt := by decide
    isDigit_of_mem := by simp, length_le := by simp }

/-! ## Its instant -/

/-- The days since 1970-01-01. -/
def days : Int := (Date.dayNumber t.year t.month t.day : Int) - Date.dayNumber 1970 1 1

/-- The seconds since 1970-01-01, without the decimal places. -/
def seconds : Int := ((t.days * 24 + t.hour) * 60 + t.minute) * 60 + t.second

/-- What decimal places add up to: the first digit counts tenths, the next one tenths of those. -/
def sumPlaces : List Char → ℚ
  | [] => 0
  | c :: cs => ((c.toNat - '0'.toNat : Nat) + sumPlaces cs) / 10

/-- The seconds since 1970-01-01, exactly. -/
def exactSeconds : ℚ := t.seconds + sumPlaces t.places

/-- The nanoseconds that the decimal places name. -/
def nanosecond : Nat := digitsValue t.places * 10 ^ (9 - t.places.length)

/-- The milliseconds since 1970-01-01. -/
def millis : Int := t.seconds * 1000 + t.nanosecond / 1000000

/-- What a text tells that names it. -/
def parts : Parts :=
  { year := t.year, month := t.month, day := t.day
    hour := t.hour, minute := t.minute, second := t.second, nanosecond := t.nanosecond }

/-- The parts name its instant, less what its clock is ahead of UTC. -/
theorem instant_parts (offset : Int) :
    { t.parts with offset }.instant = .ok (t.millis - offset * 1000) := by
  have hvalid : (⟨t.year, t.month, t.day⟩ : Date).IsValid := by
    have hyear := t.year_le
    have hmonth := Date.daysInMonth_eq (Date.isLeap t.year) t.month_pos t.month_le
    refine ⟨?_, ?_, t.month_pos, t.month_le, t.day_pos, hmonth ▸ t.day_le⟩
    · simp only [Date.firstYear]
      omega
    · simp only [Date.lastYear]
      omega
  have hdays : Date.toDays ⟨t.year, t.month, t.day⟩ = t.days :=
    Date.toDays_eq t.month_pos t.month_le t.day_pos
  have hsum : ((((t.days * 24 + t.hour) * 60 + t.minute) * 60 + t.second - offset) * 1000 +
      t.nanosecond / 1000000 : Int) = t.millis - offset * 1000 := by
    simp only [millis, seconds]
    omega
  simp only [Parts.instant, parts, hvalid, if_true, hdays, hsum]

theorem sumPlaces_eq (places : List Char) :
    sumPlaces places = (digitsValue places : ℚ) / 10 ^ places.length := by
  have hsum (n : Nat) : ((places.foldl (fun n c => 10 * n + (c.toNat - '0'.toNat)) n : Nat) : ℚ) =
      (n + sumPlaces places) * 10 ^ places.length := by
    induction places generalizing n with
    | nil => simp [sumPlaces]
    | cons c places ih =>
        rw [List.foldl_cons, ih, sumPlaces, List.length_cons, pow_succ]
        push_cast
        ring
  have h0 := hsum 0
  have hne : (10 : ℚ) ^ places.length ≠ 0 := by positivity
  rw [digitsValue, h0]
  field_simp
  simp

/-- The milliseconds are the exact instant, cut off toward the past. -/
theorem millis_eq_floor : t.millis = ⌊1000 * t.exactSeconds⌋ := by
  have hten : (10 : ℚ) ^ t.places.length * 10 ^ (9 - t.places.length) = 1000000000 := by
    rw [← pow_add, Nat.add_sub_cancel' t.length_le]
    norm_num
  have hne : (10 : ℚ) ^ t.places.length ≠ 0 := by positivity
  have hplaces : 1000 * sumPlaces t.places = ((t.nanosecond : ℤ) : ℚ) / (1000000 : ℕ) := by
    rw [sumPlaces_eq, ← mul_div_assoc, div_eq_div_iff hne (by norm_num)]
    calc 1000 * (digitsValue t.places : ℚ) * (1000000 : ℕ)
        = digitsValue t.places * 1000000000 := by
          push_cast
          ring
      _ = digitsValue t.places * (10 ^ t.places.length * 10 ^ (9 - t.places.length)) := by rw [hten]
      _ = ((t.nanosecond : ℤ) : ℚ) * 10 ^ t.places.length := by
          rw [nanosecond]
          push_cast
          ring
  calc t.millis
      = ⌊((t.seconds * 1000 : ℤ) : ℚ) + ((t.nanosecond : ℤ) : ℚ) / (1000000 : ℕ)⌋ := by
        rw [Int.floor_intCast_add, Rat.floor_intCast_div_natCast]
        rfl
    _ = ⌊1000 * t.exactSeconds⌋ := by
        rw [← hplaces, exactSeconds]
        congr 1
        push_cast
        ring

end CivilTime

end EventReplay
