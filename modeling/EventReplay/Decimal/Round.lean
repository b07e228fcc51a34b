/-!
# From decimals to floating-point numbers

The floating-point number nearest to a decimal. Decimals far outside the range of floating-point
numbers are answered without a computation, so that no power of ten gets out of hand.
-/

set_option autoImplicit false

namespace EventReplay.Decimal

/-- The number nearest to digits times a power of ten. -/
def toFloat (digits : Nat) (exponent : Int) : Float :=
  let length : Int := (Nat.toDigits 10 digits).length
  if digits = 0 ∨ length + exponent < -400 then 0
  else if 400 < length + exponent then Float.ofScientific 1 false 400
  else if 0 ≤ exponent then Float.ofScientific digits false exponent.toNat
  else Float.ofScientific digits true exponent.natAbs

/-- A number with a sign. -/
def withSign (negative : Bool) (x : Float) : Float := if negative then -x else x

/-- The value of decimal digits. -/
def digitsValue (digits : List Char) : Nat :=
  digits.foldl (fun n c => 10 * n + (c.toNat - '0'.toNat)) 0

/-- The exponent that a sign and digits stand for. -/
def exponentOf (negative : Bool) (digits : List Char) : Int :=
  if negative then -(digitsValue digits : Int) else digitsValue digits

/-- The number nearest to the digits before and behind a point, times a power of ten. -/
def ofParts (negative : Bool) (whole fraction : List Char) (exponent : Int) : Float :=
  withSign negative
    (toFloat (digitsValue (whole ++ fraction)) (exponent - (fraction.length : Int)))

end EventReplay.Decimal
