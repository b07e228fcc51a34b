import EventReplay.Decimal.Shortest

/-!
# Floating-point numbers as text

Numbers are written with the fewest digits that read back, never with an exponent, and without a point
where there is no fraction. Zero keeps its sign.
-/

set_option autoImplicit false

namespace EventReplay.Decimal

/-- The text of a decimal without exponent. -/
def text (d : Decimal) : String :=
  let digits := Nat.toDigits 10 d.digits
  if 0 ≤ d.exponent then String.ofList (digits ++ List.replicate d.exponent.toNat '0')
  else
    let places := d.exponent.natAbs
    let digits := List.replicate (places + 1 - digits.length) '0' ++ digits
    String.ofList (digits.take (digits.length - places) ++ '.' :: digits.drop (digits.length - places))

/-- The text of a floating-point number. -/
def plain (x : Float) : String :=
  let bits := x.toBits.toNat
  let sign := if Nat.pow 2 63 ≤ bits then "-" else ""
  let exponent : Nat := bits / Nat.pow 2 52 % Nat.pow 2 11
  let fraction : Nat := bits % Nat.pow 2 52
  if exponent = 2047 then
    if fraction = 0 then sign ++ "inf" else "NaN"
  else if exponent = 0 then
    if fraction = 0 then sign ++ "0" else sign ++ (shortest fraction (-1074) false).text
  else
    let narrow := fraction = 0 ∧ 1 < exponent
    sign ++ (shortest (Nat.pow 2 52 + fraction) (Int.ofNat exponent - 1075) narrow).text

end EventReplay.Decimal
