import EventReplay.Json.Lexeme

/-!
# Quoted text

A text as a JSON string: quotation mark, backslash and the control characters are escaped, every other
character stands for itself in UTF-8.
-/

set_option autoImplicit false

namespace EventReplay.Json

/-- A hexadecimal digit in small letters. -/
def hexDigit (n : Nat) : UInt8 := if n < 10 then UInt8.ofNat (0x30 + n) else UInt8.ofNat (0x57 + n)

/-- The bytes that stand for a character inside a string. -/
def quoteChar (c : Char) : Bytes :=
  if c = '"' then [backslash, quote]
  else if c = '\\' then [backslash, backslash]
  else if c = '\x08' then [backslash, ascii 'b']
  else if c = '\x0C' then [backslash, ascii 'f']
  else if c = '\n' then [backslash, ascii 'n']
  else if c = '\x0D' then [backslash, ascii 'r']
  else if c = '\t' then [backslash, ascii 't']
  else if c.toNat < 0x20 then
    [backslash, ascii 'u', ascii '0', ascii '0', hexDigit (c.toNat / 16), hexDigit (c.toNat % 16)]
  else String.utf8EncodeChar c

/-- A text as a JSON string. -/
def quoted (s : String) : Bytes := quote :: s.toList.flatMap quoteChar ++ [quote]

end EventReplay.Json
