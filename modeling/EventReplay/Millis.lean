/-!
# Times in milliseconds

Every time of a replay, logical or wall-clock, is a count of milliseconds since 1970-01-01T00:00Z.
A count is an `Int` that stays between `Millis.earliest` and `Millis.latest`, the range of a signed
64-bit word: what leaves the range is brought back to its nearer end (`Millis.clamp`), so sums and
differences of times are again times (`Millis.inRange_clamp`).
-/

set_option autoImplicit false

namespace EventReplay.Millis

/-- The earliest time that can be told. -/
def earliest : Int := -9223372036854775808

/-- The latest time that can be told. -/
def latest : Int := 9223372036854775807

/-- A count that fits a signed 64-bit word. -/
def InRange (t : Int) : Prop := earliest ≤ t ∧ t ≤ latest

instance (t : Int) : Decidable (InRange t) := by
  unfold InRange
  infer_instance

/-- The nearest time in range. -/
def clamp (t : Int) : Int := max earliest (min latest t)

/-- The sum of two times, held in range. -/
def add (s t : Int) : Int := clamp (s + t)

/-- The span from `t` to `s`, held in range. -/
def sub (s t : Int) : Int := clamp (s - t)

/-- The millisecond before `t`, held in range. -/
def pred (t : Int) : Int := clamp (t - 1)

/-- The millisecond after `t`, held in range. -/
def succ (t : Int) : Int := clamp (t + 1)

/-- What an operation makes of two times, if they and it fit their words. -/
def word? (f : Int → Int → Int) (s t : Int) : Option Int :=
  if InRange s ∧ InRange t ∧ InRange (f s t) then some (f s t) else none

/-- The count of the low 64 bits of `t`, read as a signed word. -/
def wrap (t : Int) : Int := Int.bmod t 18446744073709551616

theorem inRange_clamp (t : Int) : InRange (clamp t) := by
  simp only [InRange, clamp, earliest, latest]
  omega

theorem clamp_mono {s t : Int} (h : s ≤ t) : clamp s ≤ clamp t := by
  simp only [clamp, earliest, latest]
  omega

end EventReplay.Millis
