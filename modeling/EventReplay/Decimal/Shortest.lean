/-!
# The fewest digits that read back

A positive floating-point number is m · 2^q. All reals nearer to it than to its neighbours read back as
it, those half-way only if m is even. `shortest` finds the decimal with the fewest digits among these
reals, and of those with equally many digits the one nearest to the number; half-way between two it
takes the greater.
-/

set_option autoImplicit false

namespace EventReplay

/-- A decimal: `digits` times ten to the power `exponent`. -/
structure Decimal where
  digits : Nat
  exponent : Int
deriving DecidableEq, Repr

namespace Decimal

/-- The number of decimal digits. -/
def length (n : Nat) : Nat := (Nat.toDigits 10 n).length

/-- A decimal without zeros at the end; digits are dropped `steps` times at most. -/
def trimZeros : Nat → Decimal → Decimal
  | 0, d => d
  | steps + 1, d =>
    if d.digits ≠ 0 ∧ d.digits % 10 = 0 then trimZeros steps ⟨d.digits / 10, d.exponent + 1⟩ else d

/-- A positive number and the reals that read back as it, all in quarters of ten to the power
`exponent`. -/
structure Interval where
  value : Nat
  lower : Nat
  upper : Nat
  /-- Whether the ends belong to it. -/
  closed : Bool
  exponent : Int

/-- The interval of m · 2^q; `narrow` says that the neighbour below lies only half as far away. -/
def interval (m : Nat) (q : Int) (narrow : Bool) : Interval :=
  let unit := if 0 ≤ q then Nat.pow 2 q.toNat else Nat.pow 5 q.natAbs
  let value := 4 * m * unit
  ⟨value, value - (if narrow then unit else 2 * unit), value + 2 * unit, m % 2 = 0, min q 0⟩

/-- Whether a real belongs to the interval. -/
def Interval.holds (i : Interval) (x : Nat) : Bool :=
  if i.closed then i.lower ≤ x && x ≤ i.upper else i.lower < x && x < i.upper

/-- The multiple of a step that belongs to the interval and lies nearest to the number. -/
def Interval.nearest? (i : Interval) (step : Nat) : Option Nat :=
  let below := i.value / step
  let distanceBelow := i.value - below * step
  let distanceAbove := (below + 1) * step - i.value
  match i.holds (below * step), i.holds ((below + 1) * step) with
  | true, true => some (if distanceBelow < distanceAbove then below else below + 1)
  | true, false => some below
  | false, true => some (below + 1)
  | false, false => none

/-- Tries ever more digits, from all but `places` of them on. -/
def Interval.search (i : Interval) : Nat → Decimal
  | 0 => ⟨i.value / 4, i.exponent⟩
  | places + 1 =>
    match i.nearest? (4 * Nat.pow 10 (places + 1)) with
    | some n => ⟨n, i.exponent + (places + 1)⟩
    | none => i.search places

/-- The shortest decimal that reads back as m · 2^q, where 0 < m. -/
def shortest (m : Nat) (q : Int) (narrow : Bool) : Decimal :=
  let i := interval m q narrow
  let digits := length (i.value / 4)
  trimZeros (digits + 1) (i.search (digits - 1))

end Decimal

end EventReplay
