import EventReplay.Record.Decode
import EventReplay.Text.Blank

/-!
# Reading a shard file

The records of a shard file in order, line after line. Blank lines do not count.
-/

set_option autoImplicit false

namespace EventReplay

/-- Why a shard file cannot be read. -/
inductive ShardFault where
  /-- A line is not UTF-8. -/
  | notText
  /-- A line holds no records. -/
  | record (fault : Json.Fault)
deriving DecidableEq, Repr

/-- A line without its line feed and a carriage return before that. -/
def chopLine (line : Bytes) : Bytes :=
  match line.reverse with
  | b :: rest =>
    if b = Bytes.lineFeed then
      match rest with
      | c :: rest' => if c = 0x0D then rest'.reverse else rest.reverse
      | [] => []
    else line
  | [] => []

/-- The records of one line. -/
def readShardLine (line : Bytes) : Except ShardFault (List Record) :=
  match Utf8.decode? (chopLine line) with
  | none => .error .notText
  | some text =>
    if text.toList.all isBlank then .ok []
    else
      match decodeLine (chopLine line) with
      | .ok records => .ok records
      | .error fault => .error (.record fault)

/-- The records of the lines of a shard file. -/
def readShardLines : List Bytes → Except ShardFault (List Record)
  | [] => .ok []
  | line :: lines =>
    match readShardLine line with
    | .error fault => .error fault
    | .ok records =>
      match readShardLines lines with
      | .error fault => .error fault
      | .ok more => .ok (records ++ more)

/-- The records of a shard file. -/
def readShard (content : Bytes) : Except ShardFault (List Record) :=
  readShardLines (Bytes.lines content)

end EventReplay
