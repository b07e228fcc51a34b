import EventReplay.Calendar.Date
import EventReplay.Millis
import EventReplay.Text.Blank

/-!
# Instants as text

`Instant.read` takes a time as users write it: a count of milliseconds, RFC 3339, or a date with or
without a time of day, which then is UTC. `Instant.format` writes RFC 3339. Leap seconds count as the
second after them, and fractions below a millisecond are cut off toward the past.
-/

set_option autoImplicit false

namespace EventReplay

/-- Why a text is not an instant. -/
inductive InstantFault where
  | tooShort
  | invalid
  | outOfRange
  | trailing
deriving DecidableEq, Repr

/-- The reason in words. -/
def InstantFault.message : InstantFault → String
  | tooShort => "premature end of input"
  | invalid => "input contains invalid characters"
  | outOfRange => "input is out of range"
  | trailing => "trailing input"

/-- The fault of a text that names no instant, in words. -/
def InstantFault.describe (text : String) (fault : InstantFault) : String :=
  "invalid timestamp '" ++ text ++ "': " ++ fault.message

namespace Instant

/-! ## Parts of a date and time -/

/-- What the parts of a text have told about an instant. -/
structure Parts where
  year : Int := 0
  month : Nat := 0
  day : Nat := 0
  hour : Nat := 0
  minute : Nat := 0
  second : Nat := 0
  nanosecond : Nat := 0
  /-- How far the text's clock is ahead of UTC, in seconds. -/
  offset : Int := 0

/-- A part that is a number without sign. -/
inductive Field where
  | month
  | day
  | hour
  | minute
  | second

/-- The least and the greatest number that a field takes. Second 60 is a leap second. -/
def Field.range : Field → Nat × Nat
  | month => (1, 12)
  | day => (1, 31)
  | hour => (0, 23)
  | minute => (0, 59)
  | second => (0, 60)

/-- Sets a field. -/
def Parts.set (parts : Parts) (field : Field) (n : Nat) : Parts :=
  match field with
  | .month => { parts with month := n }
  | .day => { parts with day := n }
  | .hour => { parts with hour := n }
  | .minute => { parts with minute := n }
  | .second => { parts with second := n }

/-- What a layout asks for at one place of the text. -/
inductive Mark where
  /-- After blanks, a year of up to four digits, or of any number of them after a sign. -/
  | year
  /-- After blanks, a field of one or two digits. -/
  | field (f : Field)
  /-- A year of exactly four digits. -/
  | fullYear
  /-- A field of exactly two digits. -/
  | fullField (f : Field)
  /-- One of some characters. -/
  | oneOf (choices : List Char)
  /-- Any number of blanks. -/
  | blanks
  /-- A point and the digits of a fraction of the second, or nothing. -/
  | fraction
  /-- `Z`, or a sign, hours, a colon and minutes. -/
  | zone

/-- Year, month and day with hyphens between them. -/
def dateLayout : List Mark :=
  [.year, .oneOf ['-'], .field .month, .oneOf ['-'], .field .day]

/-- Hour, minute, second and fraction. -/
def timeLayout : List Mark :=
  [.field .hour, .oneOf [':'], .field .minute, .oneOf [':'], .field .second, .fraction]

/-- RFC 3339, where the letters may be small and a blank may stand for the `T`. -/
def zonedLayout : List Mark :=
  [.fullYear, .oneOf ['-'], .fullField .month, .oneOf ['-'], .fullField .day,
    .oneOf ['T', 't', ' '],
    .fullField .hour, .oneOf [':'], .fullField .minute, .oneOf [':'], .fullField .second,
    .fraction, .zone]

/-! ## Numbers -/

/-- The value of a row of decimal digits. -/
def digitsValue (digits : List Char) : Nat :=
  digits.foldl (fun n c => 10 * n + (c.toNat - '0'.toNat)) 0

/-- The digits at the front, at most `width`, and the rest. -/
def spanDigits (width : Nat) (cs : List Char) : List Char × List Char :=
  let digits := (cs.take width).takeWhile Char.isDigit
  (digits, cs.drop digits.length)

/-- The number at the front, of one to `width` digits. -/
def readNumber (width : Nat) (cs : List Char) : Except InstantFault (Nat × List Char) :=
  match spanDigits width cs with
  | ([], []) => .error .tooShort
  | ([], _ :: _) => .error .invalid
  | (digits, rest) => .ok (digitsValue digits, rest)

/-- The number at the front, of exactly `width` digits. -/
def readExact (width : Nat) (cs : List Char) : Except InstantFault (Nat × List Char) :=
  match spanDigits width cs with
  | (digits, rest) =>
    if digits.length = width then .ok (digitsValue digits, rest)
    else if cs.length < width then .error .tooShort
    else .error .invalid

/-- A year must fit a signed 32-bit word while the text is still being read. -/
def checkYear (year : Int) (rest : List Char) : Except InstantFault (Int × List Char) :=
  if -2147483648 ≤ year ∧ year ≤ 2147483647 then .ok (year, rest) else .error .outOfRange

/-- The year at the front. -/
def readYear (cs : List Char) : Except InstantFault (Int × List Char) :=
  match cs with
  | '-' :: rest => do
    let (n, rest) ← readNumber rest.length rest
    checkYear (-n) rest
  | '+' :: rest => do
    let (n, rest) ← readNumber rest.length rest
    checkYear n rest
  | _ => do
    let (n, rest) ← readNumber 4 cs
    checkYear n rest

/-- Puts a number into a field, if it is in the field's range. -/
def setField (parts : Parts) (f : Field) (n : Nat) : Except InstantFault Parts :=
  if f.range.1 ≤ n ∧ n ≤ f.range.2 then .ok (parts.set f n) else .error .outOfRange

/-! ## Reading a layout -/

/-- The nanoseconds at the front: the first nine digits count and the others are skipped. -/
def readNanos (cs : List Char) : Except InstantFault (Nat × List Char) :=
  match readNumber 9 cs with
  | .error fault => .error fault
  | .ok (n, rest) =>
    .ok (n * Nat.pow 10 (9 - (cs.length - rest.length)), rest.dropWhile Char.isDigit)

/-- The offset at the front, in seconds east of UTC. -/
def readZone (cs : List Char) : Except InstantFault (Int × List Char) :=
  let signed (sign : Int) (rest : List Char) : Except InstantFault (Int × List Char) :=
    match readExact 2 rest with
    | .error fault => .error fault
    | .ok (hours, ':' :: rest) =>
      match readExact 2 rest with
      | .error fault => .error fault
      | .ok (minutes, rest) =>
        if hours < 24 ∧ minutes < 60 then .ok (sign * (hours * 3600 + minutes * 60), rest)
        else .error .outOfRange
    | .ok (_, []) => .error .tooShort
    | .ok (_, _ :: _) => .error .invalid
  match cs with
  | [] => .error .tooShort
  | c :: rest =>
    if c = 'Z' ∨ c = 'z' then .ok (0, rest)
    else if c = '+' then signed 1 rest
    else if c = '-' ∨ c = '\u2212' then signed (-1) rest
    else .error .invalid

/-- Reads the text as a layout asks. -/
def readMarks (parts : Parts) : List Mark → List Char → Except InstantFault Parts
  | [], [] => .ok parts
  | [], _ :: _ => .error .trailing
  | mark :: marks, cs =>
    match mark with
    | .year => do
      let (year, rest) ← readYear (dropBlanks cs)
      readMarks { parts with year } marks rest
    | .field f => do
      let (n, rest) ← readNumber 2 (dropBlanks cs)
      let parts ← setField parts f n
      readMarks parts marks rest
    | .fullYear => do
      let (n, rest) ← readExact 4 cs
      readMarks { parts with year := n } marks rest
    | .fullField f => do
      let (n, rest) ← readExact 2 cs
      let parts ← setField parts f n
      readMarks parts marks rest
    | .oneOf choices =>
      match cs with
      | [] => .error .tooShort
      | c :: rest => if choices.contains c then readMarks parts marks rest else .error .invalid
    | .blanks => readMarks parts marks (dropBlanks cs)
    | .fraction =>
      match cs with
      | '.' :: rest => do
        let (nanosecond, rest) ← readNanos rest
        readMarks { parts with nanosecond } marks rest
      | _ => readMarks parts marks cs
    | .zone => do
      let (offset, rest) ← readZone cs
      readMarks { parts with offset } marks rest

/-- The instant that the parts name. -/
def Parts.instant (parts : Parts) : Except InstantFault Int :=
  let date : Date := ⟨parts.year, parts.month, parts.day⟩
  if date.IsValid then
    .ok ((((date.toDays * 24 + parts.hour) * 60 + parts.minute) * 60 + parts.second - parts.offset)
      * 1000 + parts.nanosecond / 1000000)
  else .error .outOfRange

/-- The instant that a text names in a layout. -/
def readLayout (marks : List Mark) (cs : List Char) : Except InstantFault Int := do
  let parts ← readMarks {} marks cs
  parts.instant

/-! ## Reading any spelling -/

/-- A count of milliseconds: digits after an optional sign, in range. -/
def readCount (cs : List Char) : Option Int :=
  let unsigned (sign : Int) (digits : List Char) : Option Int :=
    if digits ≠ [] ∧ digits.all Char.isDigit ∧ Millis.InRange (sign * digitsValue digits) then
      some (sign * digitsValue digits)
    else none
  match cs with
  | '+' :: rest => unsigned 1 rest
  | '-' :: rest => unsigned (-1) rest
  | _ => unsigned 1 cs

/-- The instant that a text names, with blanks around it or not. Where no spelling fits, the fault is
the one of the bare date. -/
def read (text : String) : Except InstantFault Int :=
  let cs := trimBlanks text.toList
  match readCount cs with
  | some millis => .ok millis
  | none =>
    match readLayout zonedLayout cs with
    | .ok millis => .ok millis
    | .error _ =>
      match readLayout (dateLayout ++ [.oneOf ['T']] ++ timeLayout) cs with
      | .ok millis => .ok millis
      | .error _ =>
        match readLayout (dateLayout ++ [.blanks] ++ timeLayout) cs with
        | .ok millis => .ok millis
        | .error _ => readLayout dateLayout cs

/-! ## Writing -/

/-- The decimal text of a number with zeros in front up to a width. -/
def padded (width n : Nat) : List Char :=
  let digits := Nat.toDigits 10 n
  List.replicate (width - digits.length) '0' ++ digits

/-- A year: four digits, and a sign in front of years that need more or lie before year 0. -/
def yearText (year : Int) : List Char :=
  if 0 ≤ year ∧ year ≤ 9999 then padded 4 year.toNat
  else (if year < 0 then '-' else '+') :: padded 4 year.natAbs

/-- The text of an instant in RFC 3339, with milliseconds only where there are some. An instant
outside the years that a date can have is written as its count. -/
def format (millis : Int) : String :=
  let days := millis / 86400000
  if days < Date.yearStart Date.firstYear ∨ Date.yearStart (Date.lastYear + 1) ≤ days then
    toString millis
  else
    let date := Date.ofDays days
    let ofDay := (millis % 86400000).toNat
    String.ofList <|
      yearText date.year ++ '-' :: padded 2 date.month ++ '-' :: padded 2 date.day ++
      'T' :: padded 2 (ofDay / 3600000) ++ ':' :: padded 2 (ofDay / 60000 % 60) ++
      ':' :: padded 2 (ofDay / 1000 % 60) ++
      (if ofDay % 1000 = 0 then [] else '.' :: padded 3 (ofDay % 1000)) ++ "+00:00".toList

end Instant

end EventReplay
