/-!
# Bytes

Payloads, stream records and file contents are lists of bytes. This module has the vocabulary that
the formats share: ASCII characters as bytes, ASCII blanks, decimal text and the cut into lines.
-/

set_option autoImplicit false

namespace EventReplay

/-- A sequence of bytes. -/
abbrev Bytes := List UInt8

/-- The byte of an ASCII character. -/
def ascii (c : Char) : UInt8 := UInt8.ofNat c.toNat

namespace Bytes

/-- The bytes of an ASCII text, one for each character. -/
def ofAscii (s : String) : Bytes := s.toList.map ascii

/-- The line feed. -/
def lineFeed : UInt8 := 0x0A

/-- Space, tab, line feed, form feed or carriage return. -/
def isAsciiBlank (b : UInt8) : Bool :=
  b = 0x20 || b = 0x09 || b = 0x0A || b = 0x0C || b = 0x0D

/-- An ASCII decimal digit. -/
def isDigit (b : UInt8) : Bool := 0x30 ≤ b && b ≤ 0x39

/-- The decimal text of an integer. -/
def ofInt (n : Int) : Bytes := ofAscii (toString n)

/-- The lines of the bytes, each with the line feed that ends it; only the last may lack one. -/
def lines : Bytes → List Bytes
  | [] => []
  | b :: rest =>
    if b = lineFeed then [b] :: lines rest
    else
      match lines rest with
      | [] => [[b]]
      | line :: more => (b :: line) :: more

/-- The first line, with its line feed if it has one, and what follows it. -/
def splitLine : Bytes → Bytes × Bytes
  | [] => ([], [])
  | b :: rest =>
    if b = lineFeed then ([b], rest)
    else
      let (line, rest) := splitLine rest
      (b :: line, rest)

theorem splitLine_length (s : Bytes) : (splitLine s).2.length ≤ s.length := by
  induction s with
  | nil => simp [splitLine]
  | cons b s ih =>
    simp only [splitLine]
    split
    · simp
    · simp only [List.length_cons]
      omega

theorem splitLine_cons_length (b : UInt8) (s : Bytes) :
    (splitLine (b :: s)).2.length < (b :: s).length := by
  have := splitLine_length s
  simp only [splitLine]
  split <;> simp only [List.length_cons] <;> omega

/-- Whether the first list of bytes occurs in the second, side by side. -/
def occursIn (part : Bytes) : Bytes → Bool
  | [] => part.isEmpty
  | b :: rest => part.isPrefixOf (b :: rest) || occursIn part rest

/-- The order of byte lists: by the first byte that differs, a beginning before the whole. -/
def le : Bytes → Bytes → Bool
  | [], _ => true
  | _ :: _, [] => false
  | a :: as, b :: bs => if a = b then le as bs else a < b

end Bytes

end EventReplay
