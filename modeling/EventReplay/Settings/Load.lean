import EventReplay.Settings.Read
import EventReplay.Storage.FileTree
import EventReplay.Text.Utf8

/-!
# Loading settings

Settings come from a file: the one that the user's environment names, or the first of some candidates
that is there. Without a file they are what they are by default.
-/

set_option autoImplicit false

namespace EventReplay

/-- Why settings cannot be loaded from a file. -/
inductive LoadFault where
  | unreadable (path : String) (cause : FileFault)
  /-- The text describes no settings. -/
  | unparsable (path : String)
  | refused (path : String) (cause : SettingFault)

/-- The fault in words. -/
def LoadFault.message : LoadFault → String
  | unreadable path _ => "unable to read config file " ++ path
  | unparsable path => "failed to parse config file " ++ path
  | refused path cause => "invalid config file " ++ path ++ ": " ++ cause.message

/-- What is behind the fault. -/
def LoadFault.causes : LoadFault → List String
  | unreadable _ cause => [cause.message]
  | _ => []

namespace Settings

/-- Why a text is refused as settings. -/
inductive TextFault where
  | unparsable
  | refused (cause : SettingFault)

/-- The fault in words. -/
def TextFault.message : TextFault → String
  | unparsable => "failed to parse configuration"
  | refused cause => cause.message

/-- The settings of a text, if nothing speaks against them. -/
def ofText (text : String) : Except TextFault Settings :=
  match ofText? text with
  | none => .error .unparsable
  | some settings =>
    match settings.fault? with
    | none => .ok settings
    | some fault => .error (.refused fault)

/-- The settings of a file. -/
def ofFile (files : FileTree) (path : String) : Except LoadFault Settings :=
  match files.read path with
  | .error cause => .error (.unreadable path cause)
  | .ok content =>
    match Utf8.decode? content with
    | none => .error (.unreadable path .notText)
    | some text =>
      match ofText text with
      | .ok settings => .ok settings
      | .error .unparsable => .error (.unparsable path)
      | .error (.refused cause) => .error (.refused path cause)

/-- Whether a written path leads to anything. -/
def stands (files : FileTree) (path : String) : Bool :=
  match files.resolve path with
  | .ok (_, some _) => true
  | _ => false

/-- Loads settings, and tells from which file. The file that the environment names counts, unless its
name is blank; otherwise the first candidate that is there. -/
def load (files : FileTree) (named : Option String) (candidates : List String) :
    Except LoadFault (Option String × Settings) :=
  let chosen : Option String :=
    match named with
    | some path =>
      if (trimmed path).isEmpty then candidates.find? (stands files) else some path
    | none => candidates.find? (stands files)
  match chosen with
  | none => .ok (none, {})
  | some path => (ofFile files path).map fun settings => (some path, settings)

end Settings

end EventReplay
