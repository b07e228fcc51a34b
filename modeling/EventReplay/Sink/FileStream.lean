import EventReplay.Sink.Basic
import EventReplay.Sink.ShardWriter

/-!
# Streams in files

A stream is a directory with a file for each of its shards; a record is a line, or an item of a line
that is an array. Each shard has a writer of its own (`EventReplay.ShardWriter`), and the writers run
independently of one another and of those who send them records. `FileStream.run` lets each of them
work until it waits.
-/

set_option autoImplicit false

namespace EventReplay

/-- How a stream is laid out and written. -/
structure StreamOptions where
  shards : Nat := 4
  /-- Whether a batch is one line. -/
  aggregate : Bool := false
  /-- The most records in a batch. -/
  maxAggregate : Nat := 100
deriving DecidableEq, Repr

/-- Why a stream cannot be opened. -/
inductive StreamFault where
  | noShards
  | noBatches
  | io (cause : FileFault)
deriving DecidableEq, Repr

/-- The fault in words. -/
def StreamFault.message : StreamFault → String
  | noShards => "invalid stream options: shards must be greater than zero"
  | noBatches => "invalid stream options: max_aggregate must be greater than zero"
  | io cause => "io error: " ++ cause.message

/-- What is behind the fault. -/
def StreamFault.causes : StreamFault → List String
  | io cause => [cause.message]
  | _ => []

/-- A shard of a stream in files. -/
structure FileShard where
  path : String
  /-- Where the path leads. -/
  place : Path
  writer : ShardWriter

/-- A stream in files. -/
structure FileStream where
  stream : String
  directory : String
  shards : List FileShard

namespace FileStream

/-- The name of the file of a shard. -/
def shardName (n : Nat) : String :=
  let digits := toString n
  "shard-" ++ String.ofList (List.replicate (4 - digits.length) '0') ++ digits ++ ".log"

/-- Opens the files of some shards, the first before the others. Those opened before a failure stay. -/
def openShards (options : StreamOptions) (directory : String) (files : FileTree) :
    List Nat → Except FileFault (List FileShard) × FileTree
  | [] => (.ok [], files)
  | n :: ns =>
    let path := Path.join directory (shardName n)
    match files.openAppend path with
    | .error fault => (.error fault, files)
    | .ok (place, files) =>
      let writer : ShardWriter :=
        { file := { content := (files.file? place).getD [] }
          aggregate := options.aggregate
          maxBatch := options.maxAggregate }
      match openShards options directory files ns with
      | (.error fault, files) => (.error fault, files)
      | (.ok shards, files) => (.ok (⟨path, place, writer⟩ :: shards), files)

/-- Opens a stream below a root and makes its directory. -/
def ofRoot (options : StreamOptions) (root stream : String) (files : FileTree) :
    Except StreamFault FileStream × FileTree :=
  if options.shards = 0 then (.error .noShards, files)
  else if options.maxAggregate = 0 then (.error .noBatches, files)
  else
    let directory := Path.join root stream
    match files.makeDirectories directory with
    | .error fault => (.error (.io fault), files)
    | .ok files =>
      match openShards options directory files (List.range options.shards) with
      | (.error fault, files) => (.error (.io fault), files)
      | (.ok shards, files) => (.ok ⟨stream, directory, shards⟩, files)

/-- Changes the writer of a shard. -/
def updateWriter (sink : FileStream) (n : Nat) (f : ShardWriter → ShardWriter) : FileStream :=
  { sink with shards := sink.shards.modify n fun shard => { shard with writer := f shard.writer } }

/-- Changes every writer. -/
def updateWriters (sink : FileStream) (f : ShardWriter → ShardWriter) : FileStream :=
  { sink with shards := sink.shards.map fun shard => { shard with writer := f shard.writer } }

/-- The number of shards of a stream; there is no stream but this one. -/
def shardCount (sink : FileStream) (stream : String) : Nat :=
  if stream = sink.stream then sink.shards.length else 0

/-- Accepts a delivery under a handle. -/
def accept (sink : FileStream) (handle : Nat) (d : Delivery) : Option Outcome × FileStream :=
  if d.stream ≠ sink.stream then (some (.failed (.unknownStream d.stream)), sink)
  else
    let n := d.target.number sink.shards.length
    match sink.shards[n]? with
    | none => (some (.failed (.unknownShard d.stream n)), sink)
    | some shard =>
      let (told, writer) := shard.writer.send (.append handle d.payload)
      (told, sink.updateWriter n fun _ => writer)

/-- Asks every writer to flush. -/
def askFlush (sink : FileStream) (ticket : Nat) : FileStream :=
  sink.updateWriters fun writer => (writer.send (.flush ticket)).2

/-- The writer of a shard takes a step. -/
def stepShard (sink : FileStream) (n : Nat) : Option ShardReply × FileStream :=
  match sink.shards[n]? with
  | none => (none, sink)
  | some shard =>
    let (reply, writer) := shard.writer.step
    (reply, sink.updateWriter n fun _ => writer)

/-- Lets every writer work until it waits; gives the replies, those of one shard in order. -/
def run (sink : FileStream) : List ShardReply × FileStream :=
  let runs := sink.shards.map fun shard =>
    let (replies, writer) := shard.writer.run
    (replies, { shard with writer })
  (runs.flatMap Prod.fst, { sink with shards := runs.map Prod.snd })

/-- Lets no more records in and lets every writer end. -/
def close (sink : FileStream) : List ShardReply × FileStream :=
  (sink.updateWriters ShardWriter.close).run

/-- The files with the shards as they have been written so far. -/
def store (sink : FileStream) (files : FileTree) : FileTree :=
  sink.shards.foldl (fun files shard => files.update shard.place shard.writer.file.content) files

end FileStream

/-- The outcomes among replies. -/
def ShardReply.outcomes (replies : List ShardReply) : List (Nat × Outcome) :=
  replies.filterMap fun
    | .told handle outcome => some (handle, outcome)
    | .flushed .. => none

/-- The answer that the flushes among replies amount to: the first fault, if there is one. -/
def ShardReply.flushResult (replies : List ShardReply) : Except DispatchFault Unit :=
  (replies.filterMap fun
    | .flushed _ (.error fault) => some (DispatchFault.io fault.message)
    | _ => none).head?.elim (.ok ()) .error

instance : Sink FileStream where
  shardCount := FileStream.shardCount
  accept sink _ handle d := sink.accept handle d
  nextDue sink := if sink.shards.all fun shard => shard.writer.isWaiting then none else some 0
  runDue sink _ :=
    let (replies, sink) := sink.run
    (ShardReply.outcomes replies, sink)
  flush sink :=
    let (replies, sink) := (sink.askFlush 0).run
    (ShardReply.outcomes replies, some (ShardReply.flushResult replies), sink)

end EventReplay
