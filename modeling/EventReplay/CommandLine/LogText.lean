import EventReplay.Calendar.Instant
import EventReplay.Json.Quoted
import EventReplay.Notice
import EventReplay.Settings.Basic

/-!
# Lines of the program's own log

A notice is one line of the log, with its time before it: as words with the particulars behind them, or
as a JSON object.
-/

set_option autoImplicit false

namespace EventReplay

/-- A text as a JSON string. -/
def Notice.quoted (s : String) : String := (Utf8.decode? (Json.quoted s)).getD ""

/-- The line of a notice at a time. -/
def LogFormat.line (format : LogFormat) (time : Int) (notice : Notice) : String :=
  match format with
  | .pretty =>
    Instant.format time ++ " " ++ notice.text ++
      String.join (notice.fields.map fun (key, value) => " " ++ key ++ "=" ++ value)
  | .structuredJson =>
    let fields := ("timestamp", Instant.format time) :: ("message", notice.text) :: notice.fields
    "\x7b" ++ String.intercalate "," (fields.map fun (key, value) =>
      Notice.quoted key ++ ":" ++ Notice.quoted value) ++ "\x7d"

end EventReplay
