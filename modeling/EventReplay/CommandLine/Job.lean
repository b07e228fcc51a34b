import EventReplay.CommandLine.Failure
import EventReplay.CommandLine.Options
import EventReplay.Log.Reader
import EventReplay.Replay.Rehearsal
import EventReplay.Sink.Memory

/-!
# The work of the program

A job is a replay from a log into a stream: into files, or into memory if it is only a dry run. It
begins with settings (`Options.settings`, `Job.ofSettings`), goes on move by move, and ends with a
report or a failure (`Job.result`) and with the shards in their files (`Job.store`).
-/

set_option autoImplicit false

namespace EventReplay.CommandLine

/-- The settings of a file, if there is one, under what is given on the command line. -/
def Options.settings (o : Options) (files : FileTree) (named : Option String) :
    Except Failure Settings :=
  match Settings.load files named (o.config.toList ++ ["configs/sfeedd.toml"]) with
  | .error fault => .error (.ofLoad fault)
  | .ok (_, settings) =>
    let settings := o.overrule settings
    match settings.fault? with
    | some fault => .error (.ofSettings fault)
    | none => .ok settings

/-- A replay from a log. -/
inductive Job where
  | filed (rehearsal : Rehearsal OpenLog FileStream)
  | dry (rehearsal : Rehearsal OpenLog MemorySink)

namespace Job

/-- Prepares a replay from a log into a sink; something may have been told before. -/
def rehearse {ω : Type} [Sink ω] (settings : Settings) (clock : WallClock) (log : OpenLog)
    (told : List Notice) (sink : ω) : Except Failure (Rehearsal OpenLog ω) :=
  let metrics : ReplayMetrics := { stream := settings.sink.stream }
  let prepared : Except ReplayFault (Rehearsal OpenLog ω) :=
    match settings.replay.seekMillis with
    | .error fault => .error (.settings fault)
    | .ok start => Rehearsal.ofPlan settings.plan (some metrics) clock start log sink
  match prepared with
  | .error fault => .error (.ofReplay fault)
  | .ok r => .ok { r with notices := r.notices ++ told.reverse }

/-- Opens what settings name, and prepares the replay. The files may have changed in any case. -/
def ofSettings (settings : Settings) (clock : WallClock) (files : FileTree) :
    Except Failure Job × FileTree :=
  match files.makeDirectories settings.logging.directory with
  | .error fault => (.error (.ofDirectory fault), files)
  | .ok files =>
    match LogReader.ofRoot files settings.source.root settings.source.segments with
    | .error fault => (.error (.ofLog settings.source fault), files)
    | .ok (reader, told) =>
      let sink := settings.sink
      let log := OpenLog.mk files reader
      if sink.dryRun then
        ((rehearse settings clock log told (MemorySink.ofShards sink.shards 0 none)).map dry, files)
      else
        let options : StreamOptions := ⟨sink.shards, sink.aggregate, sink.maxAggregate⟩
        match FileStream.ofRoot options sink.outputDirectory sink.stream files with
        | (.error fault, files) => (.error (.ofStream sink fault), files)
        | (.ok stream, files) => ((rehearse settings clock log told stream).map filed, files)

/-- What comes next. -/
def nextMove : Job → NextMove
  | filed r => r.nextMove
  | dry r => r.nextMove

/-- Makes a move. -/
def move (next : NextMove) : Job → Job
  | filed r => filed (r.move next)
  | dry r => dry (r.move next)

/-- Goes on to the end. -/
def run : Job → Job
  | filed r => filed r.run
  | dry r => dry r.run

/-- The milliseconds since the start. -/
def time : Job → Nat
  | filed r => r.time
  | dry r => r.time

/-- What has been told since this was asked before, and the job afterwards. -/
def takeNotices : Job → List Notice × Job
  | filed r => (r.notices.reverse, filed { r with notices := [] })
  | dry r => (r.notices.reverse, dry { r with notices := [] })

/-- How the replay has ended. -/
def result (job : Job) : Except Failure ReplayReport :=
  let result? :=
    match job with
    | filed r => r.replay.result?
    | dry r => r.replay.result?
  match result? with
  | some (.ok report) => .ok report
  | some (.error fault) => .error (.ofReplay fault)
  | none => .error .interrupted

/-- Lets the writers of the stream write all that has been sent to them. -/
def close : Job → Job
  | filed r => filed { r with sink := r.sink.close.2 }
  | dry r => dry r

/-- The shards of the stream, as they have been written so far. -/
def shards : Job → List FileShard
  | filed r => r.sink.shards
  | dry _ => []

/-- The files with the shards as they have been written so far. -/
def store (job : Job) (files : FileTree) : FileTree :=
  match job with
  | filed r => r.sink.store files
  | dry _ => files

end Job

end EventReplay.CommandLine
