import EventReplay.CommandLine.Job
import EventReplay.Json.Quoted

/-!
# How the program ends

The program answers a call for help or for its version, or it replays and then tells the report or what
went wrong. A failure has exit code 1 and a misuse has 2.
-/

set_option autoImplicit false

namespace EventReplay

/-- The report as JSON, a field to a line. -/
def ReplayReport.text (r : ReplayReport) : String :=
  let number? (n : Option Int) : String := (n.map toString).getD "null"
  let name := (Utf8.decode? (Json.quoted r.stream)).getD ""
  let fields : List (String × String) :=
    [("stream", name),
      ("dispatched", toString r.dispatched),
      ("failed", toString r.failed),
      ("encode_errors", toString r.encodeErrors),
      ("watermarks_emitted", toString r.watermarksEmitted),
      ("last_watermark", number? r.lastWatermark),
      ("first_timestamp", number? r.firstTimestamp),
      ("last_timestamp", number? r.lastTimestamp),
      ("peak_outstanding", toString r.peakOutstanding),
      ("elapsed", toString r.elapsed)]
  "\x7b\n" ++ String.intercalate ",\n" (fields.map fun (key, value) =>
    "  \"" ++ key ++ "\": " ++ value) ++ "\n\x7d"

namespace CommandLine

/-- The ways in which the program ends. -/
inductive Ending where
  | help
  | version
  | report (report : ReplayReport)
  | failure (failure : Failure)
  | misuse

namespace Ending

/-- The exit code. -/
def code : Ending → Nat
  | failure _ => 1
  | misuse => 2
  | _ => 0

/-- The program's name and version. -/
def versionText : String := "sfeedd 0.1.0 (debug)\n"

/-- How to call the program. -/
def usage : String :=
  "Replays a timestamp-ordered event log into an append-only stream\n\n" ++
    "Usage: sfeedd [OPTIONS]\n\nOptions:\n" ++
    String.join (ValueOption.all.map fun option => "      --" ++ option.name ++ " <VALUE>\n") ++
    String.join (Flag.all.map fun flag => "      --" ++ flag.name ++ "\n")

/-- How a replay has ended. -/
def ofResult : Except Failure ReplayReport → Ending
  | .ok r => report r
  | .error f => failure f

end Ending

/-- Does what a command line asks for, and gives the files as they are afterwards. -/
def perform (arguments : List String) (named : Option String) (clock : WallClock) (files : FileTree) :
    Ending × FileTree :=
  match Request.ofArguments arguments with
  | .help => (.help, files)
  | .version => (.version, files)
  | .misuse => (.misuse, files)
  | .replay options =>
    match options.settings files named with
    | .error failure => (.failure failure, files)
    | .ok settings =>
      match Job.ofSettings settings clock files with
      | (.error failure, files) => (.failure failure, files)
      | (.ok job, files) =>
        let job := job.run
        (.ofResult job.result, job.close.store files)

end CommandLine

end EventReplay
