import EventReplay.Text.Visible

/-!
# Texts between quotes

A text as it is shown to a programmer: between double quotes, with escapes for quotes, backslashes and
whatever would not show.
-/

set_option autoImplicit false

namespace EventReplay.Shown

/-- A character between quotes. -/
def ofChar (c : Char) : String :=
  match c with
  | '"' => "\\\""
  | '\\' => "\\\\"
  | '\n' => "\\n"
  | '\r' => "\\r"
  | '\t' => "\\t"
  | '\x00' => "\\0"
  | c =>
    if Visible.isVisible c then String.singleton c
    else "\\u\x7b" ++ String.ofList (Nat.toDigits 16 c.toNat) ++ "\x7d"

/-- A text between quotes. -/
def ofText (s : String) : String := "\"" ++ String.join (s.toList.map ofChar) ++ "\""

end EventReplay.Shown
