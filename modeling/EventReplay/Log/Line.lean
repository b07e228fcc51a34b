import EventReplay.Calendar.Instant
import EventReplay.Event
import EventReplay.Hash.SipHash
import EventReplay.Json.Quoted
import EventReplay.Json.Value

/-!
# Lines of an event log

A log holds one JSON record to a line: a time, given as a count of milliseconds or as text, a partition
key, which may be missing, and a payload, which is kept as it is written. `logLine` writes the line of
an event and `readLogLine` reads a line back. A record may also be an array of the three in order.
-/

set_option autoImplicit false

namespace EventReplay

open Json (Lexeme Need)

/-- The line of an event, with the line feed that ends it. A payload that is not JSON is written as a
JSON string. -/
def logLine (event : Event) : Bytes :=
  let payload :=
    match Json.rawValue? event.payload with
    | some text => text
    | none => Json.quoted (Utf8.decodeLossy event.payload)
  Bytes.ofAscii "\x7b\"timestamp\":" ++ Bytes.ofInt event.timestamp ++
  Bytes.ofAscii ",\"partition_key\":" ++ Json.quoted event.key ++
  Bytes.ofAscii ",\"payload\":" ++ payload ++ Bytes.ofAscii "\x7d" ++ [Bytes.lineFeed]

/-- Why a line is not a record. -/
inductive LogLineFault where
  /-- It is not JSON, or not of the shape of a record. -/
  | shape
  /-- Its time is a text that names no instant. -/
  | instant (text : String) (fault : InstantFault)
deriving DecidableEq, Repr

/-- The fault in words. -/
def LogLineFault.message : LogLineFault → String
  | shape => "not a log record"
  | instant text fault => fault.describe text

namespace LogLine

/-- A time as a record gives it. -/
inductive Time where
  | millis (t : Int)
  | text (s : String)

/-- The fields of a record that have been read. -/
structure Fields where
  time : Option Time := none
  /-- A key that is given as null is no key. -/
  key : Option (Option String) := none
  payload : Option Bytes := none

/-- The time at the front. -/
def readTime : List Lexeme → Option (Time × List Lexeme)
  | l :: ls =>
    match l.token with
    | .number n =>
      match n.value? with
      | some (.int t) => if Millis.InRange t then some (.millis t, ls) else none
      | _ => none
    | .string body => (Json.textOf? body).map fun s => (.text s, ls)
    | _ => none
  | [] => none

/-- The partition key at the front, or null. -/
def readKey : List Lexeme → Option (Option String × List Lexeme)
  | l :: ls =>
    match l.token with
    | .null => some (none, ls)
    | .string body => (Json.textOf? body).map fun s => (some s, ls)
    | _ => none
  | [] => none

/-- The payload at the front, as it is written. -/
def readPayload (ls : List Lexeme) : Option (Bytes × List Lexeme) :=
  match Json.skipValue [] .value ls with
  | some (taken, rest) =>
    let text := Json.spell taken
    if (Utf8.decode? text).isSome then some (text, rest) else none
  | none => none

/-- Reads the value of a member into the fields. Each field comes at most once; members with other
names do not count. -/
def readMember (fields : Fields) (name : String) (ls : List Lexeme) :
    Option (Fields × List Lexeme) :=
  if name = "timestamp" then
    if fields.time.isSome then none
    else (readTime ls).map fun (time, rest) => ({ fields with time := some time }, rest)
  else if name = "partition_key" then
    if fields.key.isSome then none
    else (readKey ls).map fun (key, rest) => ({ fields with key := some key }, rest)
  else if name = "payload" then
    if fields.payload.isSome then none
    else (readPayload ls).map fun (payload, rest) => ({ fields with payload := some payload }, rest)
  else (Json.skipValue [] .value ls).map fun (_, rest) => (fields, rest)

/-- The members of an object up to its end, after what is needed at the front. Each member takes at
least one lexeme, so `fuel` need not exceed their number. -/
def readMembers : Nat → Fields → Need → List Lexeme → Option (Fields × List Lexeme)
  | 0, _, _, _ => none
  | _ + 1, _, _, [] => none
  | fuel + 1, fields, need, l :: ls =>
    match Json.move need l.token, l.token with
    | .ok .closing, _ => some (fields, ls)
    | .ok (.separator next), _ => readMembers fuel fields next ls
    | .ok .key, .string body =>
      match Json.textOf? body, ls with
      | some name, colon :: ls =>
        if colon.token = .colon then
          match readMember fields name ls with
          | some (fields, rest) => readMembers fuel fields .moreMembers rest
          | none => none
        else none
      | _, _ => none
    | _, _ => none

/-- The three fields of an array up to its end. -/
def readItems (ls : List Lexeme) : Option (Fields × List Lexeme) := do
  let separated : List Lexeme → Option (List Lexeme)
    | l :: ls => if l.token = .comma then some ls else none
    | [] => none
  let (time, ls) ← readTime ls
  let ls ← separated ls
  let (key, ls) ← readKey ls
  let ls ← separated ls
  let (payload, ls) ← readPayload ls
  match ls with
  | l :: ls =>
    if l.token = .closeArray then some (⟨some time, some key, some payload⟩, ls) else none
  | [] => none

/-- The fields of the record that lexemes spell. -/
def readFields : List Lexeme → Option Fields
  | [] => none
  | l :: ls =>
    let record :=
      match l.token with
      | .openObject => readMembers (ls.length + 1) {} .firstKey ls
      | .openArray => readItems ls
      | _ => none
    match record with
    | some (fields, []) => some fields
    | _ => none

end LogLine

/-- The event of a line. A record without key gets one from its payload. -/
def readLogLine (line : Bytes) : Except LogLineFault Event :=
  match LogLine.readFields (Json.lex line) with
  | some ⟨some time, key, some payload⟩ =>
    let event (t : Int) : Event := ⟨t, (key.getD none).getD (keyOfPayload payload), payload⟩
    match time with
    | .millis t => .ok (event t)
    | .text s =>
      match Instant.read s with
      | .ok t => .ok (event t)
      | .error fault => .error (.instant s fault)
  | _ => .error .shape

end EventReplay
