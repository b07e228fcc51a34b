import EventReplay.Event
import EventReplay.Json.Grammar
import EventReplay.Json.Quoted

/-!
# Writing stream records

A stream holds one JSON record to a line: a replayed event with its outbound time, or a watermark
marker, which says that no event at or before its value follows. A payload that is JSON is embedded as
it stands; any other becomes a JSON string.
-/

set_option autoImplicit false

namespace EventReplay

/-- A declaration that no event at or before `value` is still to come. -/
structure Watermark where
  value : Int
  /-- The wall-clock time at which it was made. -/
  emittedAt : Int
deriving DecidableEq, Repr

/-- A payload inside a record. -/
def embed (payload : Bytes) : Bytes :=
  match Json.rawValue? payload with
  | some text => text
  | none => Json.quoted (Utf8.decodeLossy payload)

/-- The record of an event that goes out with the time `outbound`. -/
def encodeEvent (outbound : Int) (event : Event) : Bytes :=
  Bytes.ofAscii "\x7b\"type\":\"event\",\"timestamp\":" ++ Bytes.ofInt outbound ++
  Bytes.ofAscii ",\"partition_key\":" ++ Json.quoted event.key ++
  Bytes.ofAscii ",\"data\":" ++ embed event.payload ++ Bytes.ofAscii "\x7d"

/-- The record of a watermark. -/
def encodeWatermark (w : Watermark) : Bytes :=
  Bytes.ofAscii "\x7b\"type\":\"watermark\",\"watermark\":" ++ Bytes.ofInt w.value ++
  Bytes.ofAscii ",\"emitted_at\":" ++ Bytes.ofInt w.emittedAt ++ Bytes.ofAscii "\x7d"

end EventReplay
