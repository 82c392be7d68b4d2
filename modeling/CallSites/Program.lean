import CallSites.CommandLine
import CallSites.Report.Pretty
import CallSites.Settings.Source
import CallSites.Text.Terminal
import CallSites.TreeScan

/-!
# The program

A run checks what it was asked for, loads its settings, scans the tree and prints the report. The
first thing that fails ends it, and then nothing is printed but the reason. What happens on the way
is noted as events; how much of that is shown is a matter of the threshold alone, so a run is the
same however talkative it is.
-/

namespace CallSites

/-! ## Events -/

/-- How much a threshold lets pass. -/
inductive Level where
  | off
  | error
  | warn
  | info
  | debug
  | trace
  deriving Repr, DecidableEq

namespace Level

/-- All levels, from the most silent to the most talkative. -/
def all : List Level :=
  [off, error, warn, info, debug, trace]

/-- The name of a level. -/
def name : Level → String
  | off => "off"
  | error => "error"
  | warn => "warn"
  | info => "info"
  | debug => "debug"
  | trace => "trace"

/-- The place of a level among all. -/
def rank : Level → Nat
  | off => 0
  | error => 1
  | warn => 2
  | info => 3
  | debug => 4
  | trace => 5

/-- The level of a name, in whatever case. -/
def ofName? (name : String) : Option Level :=
  all.find? (·.name == name.toLower)

/-- The threshold that a command line asks for. -/
def ofVerbosity : Nat → Level
  | 0 => warn
  | 1 => info
  | _ => debug

end Level

/-- What a run comes by. -/
inductive Event where
  | loadingSettings (path : String)
  | scannedFile (findings : FileFindings)
  | noFiles (root : String)
  | scanComplete (findings : Findings)

namespace Event

/-- The least threshold at which an event is shown. -/
def level : Event → Level
  | loadingSettings _ => .debug
  | scannedFile _ => .debug
  | noFiles _ => .warn
  | scanComplete _ => .info

/-- The wording of an event. -/
def message : Event → String
  | loadingSettings path => "loading config config=" ++ path
  | scannedFile f =>
    "scanned file file=" ++ f.file ++ " declarations=" ++ Nat.repr f.declarations.size ++
      " calls=" ++ Nat.repr f.calls.callCount
  | noFiles root => "no source files found under " ++ Text.disarmed root
  | scanComplete f =>
    "scan complete files=" ++ Nat.repr f.files ++
      " declarations=" ++ Nat.repr f.declarations.size ++ " calls=" ++ Nat.repr f.calls.callCount

/-- The line that shows an event. -/
def line (e : Event) : String :=
  e.level.name.toUpper ++ " " ++ e.message

/-- Whether a threshold lets an event pass. -/
def passes (threshold : Level) (e : Event) : Bool :=
  decide (e.level.rank ≤ threshold.rank)

end Event

/-! ## Runs -/

/-- What ends a run. -/
inductive RunError where
  | badFormat (format : String)
  | noAccess (path : String) (error : OsError)
  | settings (error : LoadError)
  | unusable (fault : SettingsFault)
  | scan (error : ScanError)
  deriving Repr, DecidableEq

/-- The wording of an error. -/
def RunError.message : RunError → String
  | .badFormat format =>
    "invalid format " ++ Text.quoted format ++ ", must be 'pretty' or 'json'"
  | .noAccess path error =>
    "cannot access path " ++ Text.quoted path ++ ": " ++ error.message
  | .settings error => error.message
  | .unusable fault => fault.message
  | .scan error => error.message

/-- A part of a run: it notes events, and has a result or fails. -/
abbrev Run := ExceptT RunError (StateM (List Event))

namespace Run

/-- Notes an event. -/
def note (e : Event) : Run Unit :=
  modify (· ++ [e])

/-- A result, or the error that its failure means for the run. -/
def lift {α ε : Type} (cause : ε → RunError) (result : Except ε α) : Run α :=
  match result with
  | .ok a => pure a
  | .error e => throw (cause e)

end Run

/-- The forms of a report. -/
inductive Format where
  | pretty
  | json
  deriving Repr, DecidableEq

/-- The form of a given name. -/
def Format.ofName? : String → Option Format
  | "pretty" => some pretty
  | "json" => some json
  | _ => none

/-- The text of a report in a given form, with or without colours. -/
def Report.written (r : Report) (format : Format) (path : String) (painted : Bool) : String :=
  match format with
  | .pretty => r.pretty painted
  | .json => r.structured path ++ "\n"

namespace Options

/-- The settings that a command line asks for: those of the file that it names, else those of the
file in the root, else the defaults, with further directories to pass by. -/
def settings (o : Options) (fs : FileSystem) : Run Settings := do
  let base ←
    match o.settingsFile <|> Settings.discover fs o.path with
    | some path => do
      Run.note (.loadingSettings path)
      Run.lift .settings (Settings.load fs path)
    | none => pure {}
  return base.ignoring o.ignore

/-- The findings in the tree that a command line asks for. -/
def findings (o : Options) (fs : FileSystem) (settings : Settings) : Run Findings := do
  let (files, failure) := scanFiles fs settings o.path
  files.forM fun f ↦ Run.note (.scannedFile f)
  match failure with
  | some e => throw (.scan e)
  | none =>
    let findings := Findings.ofFiles files
    if findings.files = 0 then
      Run.note (.noFiles o.path)
    Run.note (.scanComplete findings)
    return findings

/-- What a command line prints, with colours if they are allowed and not refused. -/
def report (o : Options) (fs : FileSystem) (colour : Bool) : Run String := do
  let format ←
    match Format.ofName? o.format with
    | some format => pure format
    | none => throw (.badFormat o.format)
  let _ ← Run.lift (.noAccess o.path) (fs.find o.path)
  let settings ← o.settings fs
  match settings.fault? with
  | some fault => throw (.unusable fault)
  | none =>
    let findings ← o.findings fs settings
    return findings.report.written format o.path (colour && !o.noColour)

end Options

/-! ## Outcomes -/

/-- What the surroundings of a run have to say on how it shows things. -/
structure Surroundings where
  /-- Whether colours are wanted wherever the output goes. -/
  forcesColour : Bool := false
  /-- Whether colours are refused. -/
  refusesColour : Bool := false
  /-- Whether the output goes where colours can be seen. -/
  onTerminal : Bool := false
  /-- The threshold, if it is not left to the command line. -/
  threshold : Option Level := none
  deriving Repr, DecidableEq

/-- Whether the surroundings allow colours; wanting them outweighs refusing them. -/
def Surroundings.colour (s : Surroundings) : Bool :=
  s.forcesColour || (!s.refusesColour && s.onTerminal)

/-- What a run leaves behind. -/
structure Outcome where
  exitCode : Nat
  output : String
  /-- The lines of the events that are shown. -/
  log : List String := []
  /-- What ended the run early. -/
  complaint : Option String := none
  deriving Repr, DecidableEq

/-- The exit code of a run that failed. -/
def failureCode : Nat := 2

/-- The outcome of a run with the given options. -/
def run (fs : FileSystem) (s : Surroundings) (o : Options) : Outcome :=
  let (result, events) := (o.report fs s.colour).run.run []
  let threshold := s.threshold.getD (.ofVerbosity o.verbosity)
  let log := (events.filter (·.passes threshold)).map Event.line
  match result with
  | .ok output => { exitCode := 0, output, log }
  | .error e =>
    { exitCode := failureCode, output := "", log, complaint := some ("Error: " ++ e.message) }

end CallSites
