import EventReplay.Decimal.Round

/-!
# Reading numbers

Numbers as users write them. A floating-point number has digits before or behind a point, or on both
sides of it, and perhaps an exponent; infinity and no number at all go by their names. A whole number
has digits only. Both may begin with a sign, a whole number only with a plus.
-/

set_option autoImplicit false

namespace EventReplay.Decimal

/-- Whether a text is negative, and what follows its sign. -/
def splitSign : List Char → Bool × List Char
  | '-' :: cs => (true, cs)
  | '+' :: cs => (false, cs)
  | cs => (false, cs)

/-- The exponent that a text ends with, where one may stand. -/
def exponent? : List Char → Option Int
  | [] => some 0
  | c :: cs =>
    let (negative, digits) := splitSign cs
    if (c = 'e' || c = 'E') && !digits.isEmpty && digits.all Char.isDigit then
      some (exponentOf negative digits)
    else none

/-- The number that digits with a point among them and an exponent stand for. -/
def ofDigits? (negative : Bool) (cs : List Char) : Option Float :=
  let whole := cs.takeWhile Char.isDigit
  let (fraction, rest) :=
    match cs.dropWhile Char.isDigit with
    | '.' :: rest => (rest.takeWhile Char.isDigit, rest.dropWhile Char.isDigit)
    | rest => ([], rest)
  if whole.isEmpty && fraction.isEmpty then none
  else (exponent? rest).map (ofParts negative whole fraction)

/-- The floating-point number nearest to what a text says. -/
def readFloat? (s : String) : Option Float :=
  let (negative, cs) := splitSign s.toList
  let name := String.ofList (cs.map Char.toLower)
  if name = "inf" || name = "infinity" then some (withSign negative (1 / 0))
  else if name = "nan" then some (0 / 0)
  else ofDigits? negative cs

/-- The whole number of 64 bits that a text says. -/
def readWord? (s : String) : Option Nat :=
  let digits :=
    match s.toList with
    | '+' :: cs => cs
    | cs => cs
  if digits.isEmpty || !digits.all Char.isDigit then none
  else if digitsValue digits < Nat.pow 2 64 then some (digitsValue digits)
  else none

end EventReplay.Decimal
