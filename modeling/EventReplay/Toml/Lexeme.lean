/-!
# The small parts of a TOML text

Blanks, comments and ends of lines, keys, and texts between quotes. Each reader takes what it reads from
the front of the characters and gives the rest, or nothing where it cannot read.
-/

set_option autoImplicit false

namespace EventReplay.Toml

/-! ## Blanks, comments, ends of lines -/

/-- A space or a tab. -/
def isSpace (c : Char) : Bool := c = ' ' || c = '\t'

/-- A character that can stand for itself: no control character but the tab. -/
def isPlain (c : Char) : Bool := c = '\t' || (0x20 ≤ c.toNat && c.toNat ≠ 0x7F)

/-- The characters behind spaces and tabs. -/
def dropSpaces (cs : List Char) : List Char := cs.dropWhile isSpace

/-- The characters behind a line feed, with or without a carriage return before it. -/
def dropNewline : List Char → Option (List Char)
  | '\n' :: cs => some cs
  | '\r' :: '\n' :: cs => some cs
  | _ => none

/-- The characters behind a comment, if there is one. -/
def dropComment : List Char → List Char
  | '#' :: cs => cs.dropWhile isPlain
  | cs => cs

/-- The characters behind what may fill up a line, and behind its end. -/
def dropLineEnd (cs : List Char) : Option (List Char) :=
  match dropComment (dropSpaces cs) with
  | [] => some []
  | cs => dropNewline cs

/-- The characters behind blanks, ends of lines, and comments that end with their line. -/
def dropLines (cs : List Char) : List Char :=
  go cs.length cs
where
  /-- As long as there is more to drop; every line has a character. -/
  go : Nat → List Char → List Char
    | 0, cs => dropSpaces cs
    | lines + 1, cs =>
      match dropNewline (dropComment (dropSpaces cs)) with
      | some cs => go lines cs
      | none => dropSpaces cs

/-! ## Texts between quotes -/

/-- The value of hexadecimal digits, if all are. -/
def hexValue? (cs : List Char) : Option Nat :=
  cs.foldlM (fun n c =>
    if c.isDigit then some (16 * n + (c.toNat - '0'.toNat))
    else if 'a' ≤ c ∧ c ≤ 'f' then some (16 * n + (c.toNat - 'a'.toNat + 10))
    else if 'A' ≤ c ∧ c ≤ 'F' then some (16 * n + (c.toNat - 'A'.toNat + 10))
    else none) 0

/-- The character that so many hexadecimal digits name. -/
def hexChar? (digits : Nat) (cs : List Char) : Option Char :=
  let cs := cs.take digits
  if cs.length = digits then
    (hexValue? cs).bind fun n => if n.isValidChar then some (Char.ofNat n) else none
  else none

/-- The character that stands behind a backslash, and how many characters write it. -/
def escape? : List Char → Option (Char × Nat)
  | 'b' :: _ => some ('\x08', 1)
  | 't' :: _ => some ('\t', 1)
  | 'n' :: _ => some ('\n', 1)
  | 'f' :: _ => some ('\x0c', 1)
  | 'r' :: _ => some ('\r', 1)
  | '"' :: _ => some ('"', 1)
  | '\\' :: _ => some ('\\', 1)
  | 'u' :: cs => (hexChar? 4 cs).map fun c => (c, 5)
  | 'U' :: cs => (hexChar? 8 cs).map fun c => (c, 9)
  | _ => none

/-- Adds a character in front of what has been read. -/
def prepend (c : Char) : Option (List Char × List Char) → Option (List Char × List Char) :=
  Option.map fun (text, rest) => (c :: text, rest)

/-- The text up to the closing double quote, with escapes. -/
def readBasic : List Char → Option (List Char × List Char)
  | [] => none
  | '"' :: cs => some ([], cs)
  | '\\' :: cs =>
    match escape? cs with
    | none => none
    | some (c, n) => prepend c (readBasic (cs.drop n))
  | c :: cs => if isPlain c then prepend c (readBasic cs) else none
termination_by cs => cs.length
decreasing_by all_goals simp only [List.length_cons, List.length_drop]; omega

/-- The text up to the closing single quote, as it stands. -/
def readLiteral : List Char → Option (List Char × List Char)
  | [] => none
  | '\'' :: cs => some ([], cs)
  | c :: cs => if isPlain c then prepend c (readLiteral cs) else none

/-- The characters behind the end of a line that a backslash hides, with the blanks of the lines that
follow. -/
def dropHiddenEnd (cs : List Char) : Option (List Char) :=
  (dropNewline (dropSpaces cs)).map fun cs => go cs.length cs
where
  /-- As long as there is more to drop; every line has a character. -/
  go : Nat → List Char → List Char
    | 0, cs => dropSpaces cs
    | lines + 1, cs =>
      match dropNewline (dropSpaces cs) with
      | some cs => go lines cs
      | none => dropSpaces cs

/-- The quotes of a run that closes a text of many lines are three; up to two before them belong to the
text. A shorter run belongs to the text as a whole. -/
def closingRun (quote : Char) (cs : List Char) : Option (List Char × List Char) :=
  let run := (cs.takeWhile (· = quote)).length
  if 3 ≤ run then some (List.replicate (min run 5 - 3) quote, cs.drop (min run 5)) else none

/-- The text of many lines up to its closing quotes, so many characters at most. In a text with escapes
a backslash at the end of a line hides the end. -/
def readLong (quote : Char) (escapes : Bool) : Nat → List Char → Option (List Char × List Char)
  | 0, _ => none
  | _ + 1, [] => none
  | length + 1, c :: cs =>
    if c = quote then
      match closingRun quote (c :: cs) with
      | some closed => some closed
      | none => prepend c (readLong quote escapes length cs)
    else if escapes ∧ c = '\\' then
      match dropHiddenEnd cs with
      | some cs => readLong quote escapes length cs
      | none =>
        match escape? cs with
        | none => none
        | some (c, n) => prepend c (readLong quote escapes length (cs.drop n))
    else if isPlain c then prepend c (readLong quote escapes length cs)
    else
      match dropNewline (c :: cs) with
      | some cs => prepend '\n' (readLong quote escapes length cs)
      | none => none

/-- A text between quotes of any kind. An end of line right behind three quotes does not count. -/
def readText (cs : List Char) : Option (String × List Char) :=
  let long (quote : Char) (escapes : Bool) (cs : List Char) : Option (List Char × List Char) :=
    let cs := (dropNewline cs).getD cs
    readLong quote escapes cs.length cs
  let found : Option (List Char × List Char) :=
    match cs with
    | '"' :: '"' :: '"' :: cs => long '"' true cs
    | '"' :: cs => readBasic cs
    | '\'' :: '\'' :: '\'' :: cs => long '\'' false cs
    | '\'' :: cs => readLiteral cs
    | _ => none
  found.map fun (text, rest) => (String.ofList text, rest)

/-! ## Keys -/

/-- A character of a key without quotes. -/
def isKeyChar (c : Char) : Bool := c.isAlphanum || c = '-' || c = '_'

/-- One part of a key. -/
def readKeyPart (cs : List Char) : Option (String × List Char) :=
  match cs with
  | '"' :: cs => (readBasic cs).map fun (text, rest) => (String.ofList text, rest)
  | '\'' :: cs => (readLiteral cs).map fun (text, rest) => (String.ofList text, rest)
  | cs =>
    let name := cs.takeWhile isKeyChar
    if name = [] then none else some (String.ofList name, cs.drop name.length)

/-- The deepest that arrays, tables between braces and parts of a key nest. -/
def maxDepth : Nat := 80

/-- The parts of a key, so many at most, with points between them and blanks around them. -/
def readParts : Nat → List Char → Option (List String × List Char)
  | 0, _ => none
  | more + 1, cs =>
    match readKeyPart (dropSpaces cs) with
    | none => none
    | some (part, cs) =>
      match dropSpaces cs with
      | '.' :: cs => (readParts more cs).map fun (parts, rest) => (part :: parts, rest)
      | cs => some ([part], cs)

/-- A key: the parts before the last, and the last. -/
def readKey (cs : List Char) : Option ((List String × String) × List Char) :=
  match readParts maxDepth cs with
  | some (parts, rest) => parts.getLast?.map fun name => ((parts.dropLast, name), rest)
  | none => none

end EventReplay.Toml
