/-!
# Blank characters

The 25 characters with the Unicode property White_Space, and texts without the blanks around them.
-/

set_option autoImplicit false

namespace EventReplay

/-- A character with the Unicode property White_Space. -/
def isBlank (c : Char) : Bool :=
  let n := c.toNat
  (0x09 ≤ n && n ≤ 0x0D) || n = 0x20 || n = 0x85 || n = 0xA0 || n = 0x1680 ||
  (0x2000 ≤ n && n ≤ 0x200A) || n = 0x2028 || n = 0x2029 || n = 0x202F || n = 0x205F || n = 0x3000

/-- The characters from the first that is not blank. -/
def dropBlanks (cs : List Char) : List Char := cs.dropWhile isBlank

/-- The characters between the blanks at both ends. -/
def trimBlanks (cs : List Char) : List Char :=
  (dropBlanks (dropBlanks cs).reverse).reverse

/-- A text without the blanks at both ends. -/
def trimmed (s : String) : String := String.ofList (trimBlanks s.toList)

end EventReplay
