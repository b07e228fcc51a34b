import EventReplay.Decimal.Read
import EventReplay.Replay.AdaptTime
import EventReplay.Settings.Basic

/-!
# Options of the command line

The command line is read word by word. An option that takes a value has it behind an equals sign or in
the next argument, a flag has none, and none of them is given twice. The first word that asks for help
or that is no word at all decides (`Request.ofArguments`). What is given on the command line counts
more than the settings in a file (`Options.overrule`).
-/

set_option autoImplicit false

namespace EventReplay.CommandLine

/-- The options that take a value. -/
inductive ValueOption where
  | config
  | region
  | root
  | segments
  | stream
  | speedup
  | seek
  | statisticsFrequency
  | adaptTime
  | output
  | shards
deriving DecidableEq, Repr

namespace ValueOption

/-- The name of an option, which two dashes come before. -/
def name : ValueOption → String
  | config => "config"
  | region => "region"
  | root => "bucket"
  | segments => "prefix"
  | stream => "stream"
  | speedup => "speedup"
  | seek => "seek"
  | statisticsFrequency => "statisticsFrequency"
  | adaptTime => "adaptTime"
  | output => "output"
  | shards => "shards"

/-- All of them. -/
def all : List ValueOption :=
  [config, region, root, segments, stream, speedup, seek, statisticsFrequency, adaptTime, output, shards]

end ValueOption

/-- The options that take no value. -/
inductive Flag where
  | aggregate
  | noWatermark
  | dryRun
  | version
  | help
deriving DecidableEq, Repr

namespace Flag

/-- The name of a flag, which two dashes come before. -/
def name : Flag → String
  | aggregate => "aggregate"
  | noWatermark => "noWatermark"
  | dryRun => "dryRun"
  | version => "version"
  | help => "help"

/-- All of them. -/
def all : List Flag := [aggregate, noWatermark, dryRun, version, help]

/-- The flag that a single letter stands for, which one dash comes before. -/
def ofLetter? : Char → Option Flag
  | 'V' => some version
  | 'h' => some help
  | _ => none

end Flag

/-- What the arguments say. -/
inductive Word where
  | value (option : ValueOption) (text : String)
  | flag (f : Flag)
  /-- What has no meaning. -/
  | misuse
deriving DecidableEq, Repr

/-- Whether an argument can be the value of the option before it. -/
def isValue (argument : String) : Bool := argument = "-" || !argument.startsWith "-"

/-- What an argument after two dashes is made of: a name, and a value behind the first equals sign. -/
def splitValue (cs : List Char) : String × Option String :=
  (String.ofList (cs.takeWhile (· ≠ '=')),
    match cs.dropWhile (· ≠ '=') with
    | [] => none
    | _ :: value => some (String.ofList value))

/-- The words of some letters after one dash. -/
def letterWords (cs : List Char) : List Word :=
  cs.map fun c => ((Flag.ofLetter? c).map Word.flag).getD .misuse

/-- The words of some arguments. Behind two lone dashes nothing may follow. -/
def words : List String → List Word
  | [] => []
  | argument :: arguments =>
    match argument.toList with
    | ['-', '-'] => if arguments.isEmpty then [] else [.misuse]
    | '-' :: '-' :: cs =>
      let (name, value) := splitValue cs
      match ValueOption.all.find? (·.name = name), Flag.all.find? (·.name = name), value with
      | some option, _, some text => .value option text :: words arguments
      | some option, _, none =>
        match arguments with
        | [] => [.misuse]
        | text :: arguments => if isValue text then .value option text :: words arguments else [.misuse]
      | none, some f, none => .flag f :: words arguments
      | none, _, _ => [.misuse]
    | '-' :: c :: cs => letterWords (c :: cs) ++ words arguments
    | _ => [.misuse]

/-- What is given on the command line. -/
structure Options where
  /-- A file with settings. -/
  config : Option String := none
  region : Option String := none
  root : Option String := none
  segments : Option String := none
  stream : Option String := none
  speedup : Option Float := none
  seek : Option String := none
  statisticsFrequency : Option Nat := none
  adaptTime : Option AdaptTime := none
  output : Option String := none
  shards : Option Nat := none
  aggregate : Bool := false
  noWatermark : Bool := false
  dryRun : Bool := false
  version : Bool := false

namespace Options

/-- The path that a text names. -/
def path? (text : String) : Option String := if text = "" then none else some text

/-- Sets what has not been set yet, if there is a value for it. -/
def once {α : Type} (old value : Option α) (set : Option α → Options) : Option Options :=
  if old.isSome then none else value.map fun v => set (some v)

/-- Sets an option that takes a value. It must be the first time, and the text must say a value. -/
def setValue? (o : Options) (text : String) : ValueOption → Option Options
  | .config => once o.config (path? text) fun v => { o with config := v }
  | .region => once o.region (some text) fun v => { o with region := v }
  | .root => once o.root (path? text) fun v => { o with root := v }
  | .segments => once o.segments (some text) fun v => { o with segments := v }
  | .stream => once o.stream (some text) fun v => { o with stream := v }
  | .speedup => once o.speedup (Decimal.readFloat? text) fun v => { o with speedup := v }
  | .seek => once o.seek (some text) fun v => { o with seek := v }
  | .statisticsFrequency =>
    once o.statisticsFrequency (Decimal.readWord? text) fun v => { o with statisticsFrequency := v }
  | .adaptTime =>
    once o.adaptTime (AdaptTime.ofName? text) fun v => { o with adaptTime := v }
  | .output => once o.output (path? text) fun v => { o with output := v }
  | .shards => once o.shards (Decimal.readWord? text) fun v => { o with shards := v }

/-- Raises a flag. It must be the first time. A call for help is none of the options. -/
def setFlag? (o : Options) : Flag → Option Options
  | .aggregate => if o.aggregate then none else some { o with aggregate := true }
  | .noWatermark => if o.noWatermark then none else some { o with noWatermark := true }
  | .dryRun => if o.dryRun then none else some { o with dryRun := true }
  | .version => if o.version then none else some { o with version := true }
  | .help => none

/-- Settings with what is given on the command line in the place of what they were. -/
def overrule (o : Options) (s : Settings) : Settings :=
  { s with
    source :=
      { s.source with
        root := o.root.getD s.source.root
        segments := o.segments.getD s.source.segments }
    sink :=
      { s.sink with
        region := o.region.getD s.sink.region
        stream := o.stream.getD s.sink.stream
        outputDirectory := o.output.getD s.sink.outputDirectory
        shards := o.shards.getD s.sink.shards
        aggregate := o.aggregate || s.sink.aggregate
        dryRun := o.dryRun || s.sink.dryRun }
    replay :=
      { s.replay with
        speedup := o.speedup.getD s.replay.speedup
        seek := o.seek <|> s.replay.seek
        statisticsFrequency := o.statisticsFrequency.getD s.replay.statisticsFrequency
        adaptTime := o.adaptTime.getD s.replay.adaptTime }
    watermark := { s.watermark with enabled := s.watermark.enabled && !o.noWatermark } }

end Options

/-- What a command line asks for. -/
inductive Request where
  | help
  | version
  | replay (options : Options)
  /-- Nothing that can be done. -/
  | misuse

namespace Request

/-- What words ask for beyond the options that came before them. -/
def ofWords (o : Options) : List Word → Request
  | [] => if o.version then .version else .replay o
  | .value option text :: words =>
    match o.setValue? text option with
    | some o => ofWords o words
    | none => .misuse
  | .flag .help :: _ => .help
  | .flag f :: words =>
    match o.setFlag? f with
    | some o => ofWords o words
    | none => .misuse
  | .misuse :: _ => .misuse

/-- What the arguments of a command line ask for. -/
def ofArguments (arguments : List String) : Request := ofWords {} (words arguments)

end Request

end EventReplay.CommandLine
