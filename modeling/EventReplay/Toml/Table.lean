import EventReplay.Toml.Scalar

/-!
# Tables

What a TOML text says: tables of values under keys, some of which are arrays or tables themselves. A
table keeps in mind how it came about, since that decides who may add to it: a table between braces is
complete, one with a header can be given subtables by later headers, one that a longer header implies
can still get a header of its own, and one made by a key with points takes further keys with points.
No key is ever set twice.
-/

set_option autoImplicit false

namespace EventReplay.Toml

/-- How a table came about. -/
inductive TableOrigin where
  | braces
  | header
  /-- A header names something in it. -/
  | implied
  /-- A key with points names something in it. -/
  | points
deriving DecidableEq, Repr

/-- A value, and what stands under a key. -/
inductive Item where
  | scalar (s : Scalar)
  | array (items : List Item)
  | table (origin : TableOrigin) (entries : List (String × Item))
  /-- The tables with a header in double brackets. -/
  | tables (all : List (List (String × Item)))

/-- What stands under the keys of a table, first come first. -/
abbrev Entries := List (String × Item)

namespace Entries

/-- Sets a key that is there already. -/
def replace (key : String) (item : Item) (entries : Entries) : Entries :=
  entries.map fun entry => if entry.1 = key then (key, item) else entry

/-- Adds a key that is not there yet. -/
def insert? (key : String) (item : Item) (entries : Entries) : Option Entries :=
  match entries.lookup key with
  | none => some (entries ++ [(key, item)])
  | some _ => none

/-- Changes the last of some tables. -/
def changeLast? (f : Entries → Option Entries) (all : List Entries) : Option (List Entries) :=
  match all.getLast? with
  | none => none
  | some last => (f last).map fun last => all.dropLast ++ [last]

/-- Adds an entry under a key with points. A table on the way may have come from such a key; one that
was only implied may be passed, but is not added to. -/
def assign? (name : String) (item : Item) : List String → Entries → Option Entries
  | [], entries => insert? name item entries
  | key :: keys, entries =>
    match entries.lookup key with
    | none =>
      (assign? name item keys []).map fun sub => entries ++ [(key, .table .points sub)]
    | some (.table .points sub) =>
      (assign? name item keys sub).map fun sub => replace key (.table .points sub) entries
    | some (.table .implied sub) =>
      if keys = [] then none
      else (assign? name item keys sub).map fun sub => replace key (.table .implied sub) entries
    | some (.tables all) =>
      if keys = [] then none
      else
        (changeLast? (assign? name item keys) all).map fun all => replace key (.tables all) entries
    | some _ => none

/-- Changes the table that the parts of a header lead to; what is not there yet is implied. -/
def changeAt? (f : Entries → Option Entries) : List String → Entries → Option Entries
  | [], entries => f entries
  | key :: keys, entries =>
    match entries.lookup key with
    | none => (changeAt? f keys []).map fun sub => entries ++ [(key, .table .implied sub)]
    | some (.table .braces _) => none
    | some (.table origin sub) =>
      (changeAt? f keys sub).map fun sub => replace key (.table origin sub) entries
    | some (.tables all) =>
      (changeLast? (changeAt? f keys) all).map fun all => replace key (.tables all) entries
    | some _ => none

/-- Gives a table its header. -/
def openTable? (path : List String) (name : String) : Entries → Option Entries :=
  changeAt? (fun entries =>
    match entries.lookup name with
    | none => some (entries ++ [(name, .table .header [])])
    | some (.table .implied sub) => some (replace name (.table .header sub) entries)
    | some _ => none) path

/-- Adds a table under a header in double brackets. -/
def pushTable? (path : List String) (name : String) : Entries → Option Entries :=
  changeAt? (fun entries =>
    match entries.lookup name with
    | none => some (entries ++ [(name, .tables [[]])])
    | some (.tables all) => some (replace name (.tables (all ++ [[]])) entries)
    | some _ => none) path

end Entries

end EventReplay.Toml
