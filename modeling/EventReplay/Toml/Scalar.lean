import EventReplay.Calendar.Date
import EventReplay.Decimal.Round
import EventReplay.Millis
import EventReplay.Toml.Lexeme

/-!
# Scalars of a TOML text

Truth values, numbers, dates and times. A date or time is only checked: nothing in this library asks
for its value.
-/

set_option autoImplicit false

namespace EventReplay.Toml

/-- A value without parts. -/
inductive Scalar where
  | text (s : String)
  | integer (n : Int)
  | float (x : Float)
  | bool (b : Bool)
  /-- A date, a time of day, or both. -/
  | date

/-! ## Numbers -/

/-- A sign at the front, if there is one: whether it is a minus. -/
def readSign : List Char → Bool × List Char
  | '-' :: cs => (true, cs)
  | '+' :: cs => (false, cs)
  | cs => (false, cs)

/-- The digits at the front, at least one; an underscore may stand between two of them. -/
def readDigits (isDigit : Char → Bool) : List Char → Option (List Char × List Char)
  | [] => none
  | '_' :: _ => none
  | c :: cs =>
    if isDigit c then
      match cs with
      | '_' :: next =>
        match readDigits isDigit next with
        | some (digits, rest) => some (c :: digits, rest)
        | none => some ([c], '_' :: next)
      | cs =>
        match readDigits isDigit cs with
        | some (digits, rest) => some (c :: digits, rest)
        | none => some ([c], cs)
    else none

/-- The digits of a decimal integer: a zero alone, or any that do not start with a zero. -/
def readWhole : List Char → Option (List Char × List Char)
  | '0' :: cs => some (['0'], cs)
  | cs => readDigits Char.isDigit cs

/-- The digits behind a point. -/
def readFraction : List Char → Option (List Char × List Char)
  | '.' :: cs => readDigits Char.isDigit cs
  | _ => none

/-- The power of ten behind an `e`. -/
def readExponent : List Char → Option (Int × List Char)
  | c :: cs =>
    if c = 'e' ∨ c = 'E' then
      let (negative, cs) := readSign cs
      (readDigits Char.isDigit cs).map fun (digits, rest) =>
        (Decimal.exponentOf negative digits, rest)
    else none
  | [] => none

/-- A floating-point number in decimal: an integer with a fraction or a power of ten or both. One that
is too great is none, but for the sign of a number too far below zero. -/
def readDecimal (cs : List Char) : Option (Float × List Char) := do
  let (negative, cs) := readSign cs
  let (whole, cs) ← readWhole cs
  let (fraction, exponent, cs) ←
    match readFraction cs with
    | some (fraction, cs) =>
      match readExponent cs with
      | some (exponent, cs) => some (fraction, exponent, cs)
      | none => some (fraction, 0, cs)
    | none => (readExponent cs).map fun (exponent, cs) => ([], exponent, cs)
  let x := Decimal.ofParts negative whole fraction exponent
  if x.isInf && !negative then none else some (x, cs)

/-- Infinity, or what is no number. -/
def readSpecial (cs : List Char) : Option (Float × List Char) :=
  let (negative, cs) := readSign cs
  match cs with
  | 'i' :: 'n' :: 'f' :: cs => some (Decimal.withSign negative (1.0 / 0.0), cs)
  | 'n' :: 'a' :: 'n' :: cs => some (Decimal.withSign negative (0.0 / 0.0), cs)
  | _ => none

/-- An integer that a signed 64-bit word holds. -/
def integer? (n : Int) : Option Int := if Millis.InRange n then some n else none

/-- Whether a character is a digit of a base up to sixteen. -/
def isDigitOf (base : Nat) (c : Char) : Bool :=
  match hexValue? [c] with
  | some n => n < base
  | none => false

/-- The value of digits of a base up to sixteen. -/
def valueOf (base : Nat) (digits : List Char) : Nat :=
  digits.foldl (fun n c => base * n + (hexValue? [c]).getD 0) 0

/-- An integer in decimal, or without sign in another base. -/
def readInteger (cs : List Char) : Option (Int × List Char) :=
  let inBase (base : Nat) (cs : List Char) : Option (Int × List Char) := do
    let (digits, cs) ← readDigits (isDigitOf base) cs
    let n ← integer? (valueOf base digits)
    pure (n, cs)
  match cs with
  | '0' :: 'x' :: cs => inBase 16 cs
  | '0' :: 'o' :: cs => inBase 8 cs
  | '0' :: 'b' :: cs => inBase 2 cs
  | cs => do
    let (negative, cs) := readSign cs
    let (digits, cs) ← readWhole cs
    let n ← integer? (Decimal.exponentOf negative digits)
    pure (n, cs)

/-! ## Dates and times -/

/-- The number of so many digits at the front, between two bounds. -/
def readField (width least greatest : Nat) (cs : List Char) : Option (Nat × List Char) :=
  let digits := cs.take width
  let n := Decimal.digitsValue digits
  if digits.length = width ∧ digits.all Char.isDigit ∧ least ≤ n ∧ n ≤ greatest then
    some (n, cs.drop width)
  else none

/-- The characters behind one that has to be there. -/
def dropOne (expected : Char) : List Char → Option (List Char)
  | c :: cs => if c = expected then some cs else none
  | [] => none

/-- The characters behind a date that the calendar has. -/
def dropDate (cs : List Char) : Option (List Char) := do
  let (year, cs) ← readField 4 0 9999 cs
  let cs ← dropOne '-' cs
  let (month, cs) ← readField 2 1 12 cs
  let cs ← dropOne '-' cs
  let (_, cs) ← readField 2 1 (Date.daysInMonth (Date.isLeap year) month) cs
  pure cs

/-- The characters behind a time of day. -/
def dropTime (cs : List Char) : Option (List Char) := do
  let (_, cs) ← readField 2 0 23 cs
  let cs ← dropOne ':' cs
  let (_, cs) ← readField 2 0 59 cs
  let cs ← dropOne ':' cs
  let (_, cs) ← readField 2 0 60 cs
  match cs with
  | '.' :: fraction =>
    let digits := fraction.takeWhile Char.isDigit
    pure (if digits = [] then cs else fraction.drop digits.length)
  | cs => pure cs

/-- The characters behind the zone of a time, if it has one. -/
def dropZone (cs : List Char) : List Char :=
  let offset (cs : List Char) : Option (List Char) := do
    let (_, cs) ← readField 2 0 23 cs
    let cs ← dropOne ':' cs
    let (_, cs) ← readField 2 0 59 cs
    pure cs
  match cs with
  | 'Z' :: rest | 'z' :: rest => rest
  | '+' :: rest | '-' :: rest => (offset rest).getD cs
  | cs => cs

/-- The characters behind a date, a time of day, or a date and a time with a `T` or a space between. -/
def dropMoment (cs : List Char) : Option (List Char) :=
  match dropDate cs with
  | none => dropTime cs
  | some rest =>
    match rest with
    | c :: time =>
      if c = 'T' ∨ c = 't' ∨ c = ' ' then some (((dropTime time).map dropZone).getD rest)
      else some rest
    | [] => some []

/-! ## Any scalar -/

/-- The scalar at the front: a date before a number, a fraction before an integer. -/
def readScalar (cs : List Char) : Option (Scalar × List Char) :=
  match cs with
  | '"' :: _ | '\'' :: _ => (readText cs).map fun (s, rest) => (.text s, rest)
  | 't' :: 'r' :: 'u' :: 'e' :: rest => some (.bool true, rest)
  | 'f' :: 'a' :: 'l' :: 's' :: 'e' :: rest => some (.bool false, rest)
  | cs =>
    match dropMoment cs with
    | some rest => some (.date, rest)
    | none =>
      match readDecimal cs <|> readSpecial cs with
      | some (x, rest) => some (.float x, rest)
      | none => (readInteger cs).map fun (n, rest) => (.integer n, rest)

end EventReplay.Toml
