import EventReplay.Toml.Table

/-!
# TOML documents

A document is a sequence of lines: blank ones, headers that open a table, and keys with their values,
which go to the table opened last. `Toml.read` gives the table that a text describes, or nothing if the
text is no TOML.
-/

set_option autoImplicit false

namespace EventReplay.Toml

/-! ## Values -/

/-- The items of an array up to its closing bracket, so many at most. A comma may stand behind the last
one. -/
def readItems (value : List Char → Option (Item × List Char)) :
    Nat → List Char → Option (List Item × List Char)
  | 0, _ => none
  | more + 1, cs =>
    match dropLines cs with
    | ']' :: rest => some ([], rest)
    | cs =>
      match value cs with
      | none => none
      | some (item, cs) =>
        match dropLines cs with
        | ',' :: cs => (readItems value more cs).map fun (items, rest) => (item :: items, rest)
        | ']' :: rest => some ([item], rest)
        | _ => none

/-- A key, an equals sign and a value. -/
def readPair (value : List Char → Option (Item × List Char)) (cs : List Char) :
    Option ((List String × String × Item) × List Char) :=
  match readKey cs with
  | some ((path, name), '=' :: cs) =>
    (value (dropSpaces cs)).map fun (item, rest) => ((path, name, item), rest)
  | _ => none

/-- The pairs of a table between braces up to its closing brace, so many at most, added to those before
them. -/
def readPairs (value : List Char → Option (Item × List Char)) :
    Nat → Entries → List Char → Option (Entries × List Char)
  | 0, _, _ => none
  | more + 1, entries, cs => do
    let ((path, name, item), cs) ← readPair value cs
    let entries ← entries.assign? name item path
    match dropSpaces cs with
    | ',' :: cs => readPairs value more entries cs
    | '\x7d' :: rest => some (entries, rest)
    | _ => none

/-- The value at the front, in which arrays and tables nest so many levels deep at most. -/
def readValue : Nat → List Char → Option (Item × List Char)
  | depth + 1, '[' :: cs =>
    (readItems (readValue depth) (cs.length + 1) cs).map fun (items, rest) => (.array items, rest)
  | depth + 1, '\x7b' :: cs =>
    match dropSpaces cs with
    | '\x7d' :: rest => some (.table .braces [], rest)
    | _ =>
      (readPairs (readValue depth) (cs.length + 1) [] cs).map fun (entries, rest) =>
        (.table .braces entries, rest)
  | _, cs => (readScalar cs).map fun (s, rest) => (.scalar s, rest)

/-! ## Lines -/

/-- The part of a document that has been read. -/
structure Document where
  root : Entries := []
  /-- The header of the table that is open. -/
  here : List String := []

namespace Document

/-- Reads one line with something in it. -/
def readLine (d : Document) (cs : List Char) : Option (Document × List Char) :=
  match cs with
  | '[' :: '[' :: cs => do
    let ((path, name), cs) ← readKey cs
    let cs ← dropOne ']' cs
    let cs ← dropOne ']' cs
    let root ← d.root.pushTable? path name
    let rest ← dropLineEnd cs
    pure (⟨root, path ++ [name]⟩, rest)
  | '[' :: cs => do
    let ((path, name), cs) ← readKey cs
    let cs ← dropOne ']' cs
    let root ← d.root.openTable? path name
    let rest ← dropLineEnd cs
    pure (⟨root, path ++ [name]⟩, rest)
  | cs => do
    let ((path, name, item), cs) ← readPair (readValue maxDepth) cs
    let root ← d.root.changeAt? (Entries.assign? name item path) d.here
    let rest ← dropLineEnd cs
    pure ({ d with root }, rest)

/-- Reads lines, so many at most. -/
def readLines : Nat → Document → List Char → Option Document
  | 0, d, cs => if dropSpaces cs = [] then some d else none
  | more + 1, d, cs =>
    match dropSpaces cs with
    | [] => some d
    | cs =>
      match dropLineEnd cs with
      | some rest => readLines more d rest
      | none =>
        match d.readLine cs with
        | none => none
        | some (d, rest) => readLines more d rest

end Document

/-- The table that a text describes. A mark for the byte order at the start says nothing. -/
def read (text : String) : Option Entries :=
  let cs :=
    match text.toList with
    | '\uFEFF' :: cs => cs
    | cs => cs
  (Document.readLines (cs.length + 1) {} cs).map Document.root

end EventReplay.Toml
