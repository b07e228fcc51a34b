import EventReplay.Text.Bytes

/-!
# UTF-8

`encode` writes a text as bytes, `decode?` reads bytes back as a text, and `decodeLossy` reads any
bytes, with U+FFFD for each part that is not UTF-8. Both readers go through `pieces`, which cuts the
bytes into characters and broken parts; a broken part is as long as it can be while it still begins
some character.
-/

set_option autoImplicit false

namespace EventReplay.Utf8

/-- The bytes of a text. -/
def encode (s : String) : Bytes := s.toList.flatMap String.utf8EncodeChar

/-- What a first byte above 0x7F promises: the range of the second byte and the number of bytes that
follow the first. -/
def lead? (b : UInt8) : Option (UInt8 × UInt8 × Nat) :=
  if b < 0xC2 then none
  else if b < 0xE0 then some (0x80, 0xBF, 1)
  else if b = 0xE0 then some (0xA0, 0xBF, 2)
  else if b = 0xED then some (0x80, 0x9F, 2)
  else if b < 0xF0 then some (0x80, 0xBF, 2)
  else if b = 0xF0 then some (0x90, 0xBF, 3)
  else if b < 0xF4 then some (0x80, 0xBF, 3)
  else if b = 0xF4 then some (0x80, 0x8F, 3)
  else none

/-- A byte that continues a character. -/
def isContinuation (b : UInt8) : Bool := 0x80 ≤ b && b ≤ 0xBF

/-- The six bits that a continuation byte carries. -/
def low (b : UInt8) : Nat := b.toNat % 64

/-- The characters of the bytes in order, `none` for each broken part. -/
def pieces : Bytes → List (Option Char)
  | [] => []
  | a :: rest =>
    if a < 0x80 then some (Char.ofNat a.toNat) :: pieces rest
    else
      match lead? a with
      | none => none :: pieces rest
      | some (lo, hi, more) =>
        match rest with
        | [] => [none]
        | b :: rest₁ =>
          if b < lo || hi < b then none :: pieces (b :: rest₁)
          else if more = 1 then
            some (Char.ofNat (a.toNat % 32 * 64 + low b)) :: pieces rest₁
          else
            match rest₁ with
            | [] => [none]
            | c :: rest₂ =>
              if !isContinuation c then none :: pieces (c :: rest₂)
              else if more = 2 then
                some (Char.ofNat (a.toNat % 16 * 4096 + low b * 64 + low c)) :: pieces rest₂
              else
                match rest₂ with
                | [] => [none]
                | d :: rest₃ =>
                  if !isContinuation d then none :: pieces (d :: rest₃)
                  else
                    some (Char.ofNat
                      (a.toNat % 8 * 262144 + low b * 4096 + low c * 64 + low d)) :: pieces rest₃

/-- The text that the bytes write, if they are UTF-8. -/
def decode? (bytes : Bytes) : Option String :=
  ((pieces bytes).mapM id).map String.ofList

/-- The text of any bytes, with U+FFFD for each broken part. -/
def decodeLossy (bytes : Bytes) : String :=
  String.ofList ((pieces bytes).map fun piece => piece.getD '\uFFFD')

end EventReplay.Utf8
