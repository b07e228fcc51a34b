import EventReplay.CommandLine.Ending
import EventReplay.CommandLine.LogText
import Std.Time.DateTime.Timestamp

/-!
# The program

The outer layer of the command line: it brings in the files that a job needs, lets the time pass where
the job waits for it, and writes the shards and the log. What is done, and in which order, is said by
`EventReplay.CommandLine.Job`.
-/

set_option autoImplicit false

namespace EventReplay.CommandLine

/-! ## Files -/

/-- The place that a written path leads to where no name is a link. -/
def placeOf (files : FileTree) (path : String) : Path :=
  (Path.parts path).foldl (fun place part => if part = ".." then place.dropLast else place ++ [part])
    (files.origin path)

/-- The absolute path of a place. -/
def absolute (place : Path) : String := "/" ++ Path.text place

/-- Brings in a file, or a directory with all that is below it. -/
partial def bringIn (files : FileTree) (place : Path) : IO FileTree := do
  let onDisk := System.mkFilePath [absolute place]
  if ← onDisk.isDir then
    let mut files := files.addDirectory place
    for entry in ← onDisk.readDir do
      files ← bringIn files (place ++ [entry.fileName])
    return files
  else if ← onDisk.pathExists then
    return files.write place (← IO.FS.readBinFile onDisk).toList
  else return files

/-- Brings in what a written path names, and the directories above it. -/
def bringInPath (files : FileTree) (path : String) : IO FileTree := do
  let place := placeOf files path
  let mut files := files
  for n in List.range place.length do
    if ← (System.mkFilePath [absolute (place.take n)]).isDir then
      files := files.addDirectory (place.take n)
  bringIn files place

/-- Appends to the files of the shards what has been written to them since; gives how much is there
now. -/
def saveShards (job : Job) (saved : List Nat) : IO (List Nat) :=
  (job.shards.zip saved).mapM fun (shard, length) => do
    let content := shard.writer.file.content
    if length < content.length then
      IO.FS.withFile shard.path .append fun file => file.write (content.drop length).toByteArray
    return content.length

/-! ## Time -/

/-- The wall clock's time. -/
def wallTime : IO Int := do
  return (← Std.Time.Timestamp.now).toMillisecondsSinceUnixEpoch.val

/-- Waits until so many milliseconds have gone by since the start. -/
partial def waitUntil (start time : Nat) : IO Unit := do
  let elapsed := (← IO.monoMsNow) - start
  if elapsed < time then
    IO.sleep (min (time - elapsed) 1000000).toUInt32
    waitUntil start time

/-! ## The replay -/

/-- Writes to the log what the job has told. -/
def logNotices (log : Option (IO.FS.Handle × LogFormat)) (anchor : Int) (job : Job) : IO Job := do
  let (notices, quiet) := job.takeNotices
  if let some (file, format) := log then
    for notice in notices do
      file.putStrLn (format.line (anchor + (job.time : Int)) notice)
  return quiet

/-- Makes the moves of a job at their times. -/
partial def carryOut (log : Option (IO.FS.Handle × LogFormat)) (anchor : Int) (start : Nat)
    (job : Job) (saved : List Nat) : IO (Job × List Nat) := do
  match job.nextMove with
  | .stop => return (job, saved)
  | next =>
    let saved ←
      match next with
      | .settleAt time | .wakeAt time => do
        let saved ← saveShards job saved
        waitUntil start time
        pure saved
      | _ => pure saved
    carryOut log anchor start (← logNotices log anchor (job.move next)) saved

/-- Opens the program's own log, unless the environment turns it off. -/
def openLog (settings : LoggingSettings) (anchor : Int) : IO (Option (IO.FS.Handle × LogFormat)) := do
  if (← IO.getEnv "SFEED_LOG") == some "off" then return none
  let day := ((Instant.format anchor).takeWhile (· ≠ 'T')).toString
  let name := settings.fileName.getD "sfeedd" ++ ".log." ++ day
  let file ← IO.FS.Handle.mk (Path.join settings.directory name) .append
  return some (file, settings.format)

/-- Replays as options say. -/
def replay (options : Options) : IO Ending := do
  let named ← IO.getEnv "SFEED_CONFIG"
  let working := Path.parts (← IO.currentDir).toString
  let mut files : FileTree := { here := working }
  files ← bringInPath files "configs/sfeedd.toml"
  for path in options.config.toList ++ named.toList do
    files ← bringInPath files path
  match options.settings files named with
  | .error failure => return .failure failure
  | .ok settings =>
    let output := Path.join settings.sink.outputDirectory settings.sink.stream
    for path in [settings.source.root, output, settings.logging.directory] do
      files ← bringInPath files path
    let start ← IO.monoMsNow
    let anchor ← wallTime
    match Job.ofSettings settings (.anchored anchor) files with
    | (.error failure, _) => return .failure failure
    | (.ok job, _) =>
      IO.FS.createDirAll settings.logging.directory
      let log ← openLog settings.logging anchor
      if !settings.sink.dryRun then
        IO.FS.createDirAll output
        for shard in job.shards do
          IO.FS.withFile shard.path .append fun _ => pure ()
      let saved := job.shards.map fun shard => shard.writer.file.content.length
      let job ← logNotices log anchor job
      let (job, saved) ← carryOut log anchor start job saved
      let _ ← saveShards job.close saved
      return .ofResult job.result

/-- Does what the arguments ask for, and gives the exit code. -/
def answer (arguments : List String) : IO UInt32 := do
  let ending ←
    match Request.ofArguments arguments with
    | .help => pure Ending.help
    | .version => pure Ending.version
    | .misuse => pure Ending.misuse
    | .replay options => replay options
  match ending with
  | .help => IO.print Ending.usage
  | .version => IO.print Ending.versionText
  | .report report => IO.println report.text
  | .failure failure => IO.eprintln failure.text
  | .misuse => IO.eprintln "error: the arguments make no sense\n\nUsage: sfeedd [OPTIONS]"
  return ending.code.toUInt32

end EventReplay.CommandLine

/-- The program. -/
def main (arguments : List String) : IO UInt32 := EventReplay.CommandLine.answer arguments
