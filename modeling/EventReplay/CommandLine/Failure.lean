import EventReplay.Replay.Report
import EventReplay.Settings.Load
import EventReplay.Sink.FileStream

/-!
# Failures of the program

What is said when the program cannot do its work: what failed, and below it the causes, numbered if
there are several.
-/

set_option autoImplicit false

namespace EventReplay.CommandLine

/-- What failed and what is behind it, the nearest cause first. -/
structure Failure where
  message : String
  causes : List String := []
deriving DecidableEq, Repr

namespace Failure

/-- A text with a beginning for its first line and one for each of the others. -/
def indented (first rest text : String) : String :=
  first ++ String.intercalate ("\n" ++ rest) (text.splitOn "\n")

/-- The lines of a numbered cause. -/
def numbered (n : Nat) (cause : String) : String :=
  let digits := toString n
  let margin := String.ofList (List.replicate (5 - digits.length) ' ')
  indented (margin ++ digits ++ ": ") "       " cause

/-- The failure in words. -/
def text (f : Failure) : String :=
  "Error: " ++ f.message ++
    match f.causes with
    | [] => ""
    | [cause] => "\n\nCaused by:\n" ++ indented "    " "    " cause
    | causes =>
      "\n\nCaused by:" ++ String.join (causes.zipIdx.map fun (cause, n) => "\n" ++ numbered n cause)

/-- Settings cannot be loaded. -/
def ofLoad (fault : LoadFault) : Failure := ⟨fault.message, fault.causes⟩

/-- Settings speak against themselves. -/
def ofSettings (fault : SettingFault) : Failure :=
  ⟨"invalid replay configuration", [fault.message]⟩

/-- A directory cannot be made. -/
def ofDirectory (fault : FileFault) : Failure := ⟨fault.message, []⟩

/-- The log below a root cannot be opened. -/
def ofLog (source : SourceSettings) (fault : SourceFault) : Failure :=
  ⟨"failed to open event log under " ++ source.root ++ " with prefix '" ++ source.segments ++ "'",
    fault.message :: fault.causes⟩

/-- A stream cannot be opened. -/
def ofStream (sink : SinkSettings) (fault : StreamFault) : Failure :=
  ⟨"failed to open stream " ++ sink.stream ++ " under " ++ sink.outputDirectory,
    fault.message :: fault.causes⟩

/-- A replay stops before its end. -/
def ofReplay (fault : ReplayFault) : Failure := ⟨fault.message, fault.causes⟩

/-- A replay is given up. -/
def interrupted : Failure := ⟨"replay interrupted before the event log was exhausted", []⟩

end Failure

end EventReplay.CommandLine
