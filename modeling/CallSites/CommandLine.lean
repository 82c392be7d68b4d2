import CallSites.Report.Structured

/-!
# The command line

Arguments are read from left to right. A value, whether of an option or the path itself, is only
looked at when it is *settled*: when the next option begins, or at the end. Until then an argument
that makes no sense at all takes precedence. Behind a bare double dash everything is a path.
-/

namespace CallSites

/-- What a command line asks for. -/
structure Options where
  /-- The root of the scan. -/
  path : String := "."
  /-- The settings file, if it is named. -/
  settingsFile : Option String := none
  format : String := "pretty"
  /-- Further directories to pass by. -/
  ignore : List String := []
  noColour : Bool := false
  /-- How often more logging is asked for. -/
  verbosity : Nat := 0
  deriving Repr, DecidableEq

/-- Why a command line does not lead to a scan. -/
inductive UsageStop where
  | help
  | version
  | unknownArgument
  /-- A value is missing or empty. -/
  | invalidValue
  /-- Something that can be said once is said twice. -/
  | argumentConflict
  /-- A value for something that takes none. -/
  | tooManyValues
  deriving Repr, DecidableEq

/-- The options. -/
inductive Switch where
  | config
  | format
  | ignore
  | noColour
  | verbose
  | help
  | version
  deriving Repr, DecidableEq

namespace Switch

/-- Whether a value belongs to an option. -/
def takesValue : Switch → Bool
  | config | format | ignore => true
  | _ => false

/-- The option of a letter. -/
def ofLetter? : Char → Option Switch
  | 'c' => some config
  | 'f' => some format
  | 'i' => some ignore
  | 'v' => some verbose
  | 'h' => some help
  | 'V' => some version
  | _ => none

/-- The option of a word. -/
def ofWord? : String → Option Switch
  | "config" => some config
  | "format" => some format
  | "ignore" => some ignore
  | "no-color" => some noColour
  | "verbose" => some verbose
  | "help" => some help
  | "version" => some version
  | _ => none

end Switch

namespace CommandLine

/-- A value that is not settled yet. -/
inductive Pending where
  | nothing
  /-- An option whose value comes next. -/
  | awaiting (s : Switch)
  | value (s : Switch) (text : String)
  | path (text : String)
  deriving Repr, DecidableEq

/-- A command line being read. -/
structure State where
  options : Options := {}
  /-- The options so far that can be given once. -/
  given : List Switch := []
  pending : Pending := .nothing
  /-- Whether there has been a path. -/
  hasPath : Bool := false
  /-- Whether everything further is a path. -/
  onlyPaths : Bool := false
  deriving Repr, DecidableEq

/-- The most that verbosity counts. -/
def verbosityLimit : Nat := 255

namespace State

/-- An option that can be given once. -/
def once (s : State) (switch : Switch) (change : Options → Options) : Except UsageStop State :=
  if s.given.contains switch then .error .argumentConflict
  else .ok { s with given := switch :: s.given, options := change s.options }

/-- An option with its value. -/
def store (s : State) (switch : Switch) (text : String) : Except UsageStop State :=
  match switch with
  | .config => do
    let s ← s.once .config fun o ↦ { o with settingsFile := some text }
    if text = "" then .error .invalidValue else .ok s
  | .format => s.once .format fun o ↦ { o with format := text }
  | .ignore => .ok { s with options := { s.options with ignore := s.options.ignore ++ [text] } }
  | _ => .error .tooManyValues

/-- Settles what is pending. -/
def settle (s : State) : Except UsageStop State :=
  let settled := { s with pending := .nothing }
  match s.pending with
  | .nothing => .ok settled
  | .awaiting _ => .error .invalidValue
  | .value switch text => settled.store switch text
  | .path text =>
    if text = "" then .error .invalidValue
    else .ok { settled with options := { s.options with path := text } }

/-- An option that takes no value. -/
def flag (s : State) (switch : Switch) : Except UsageStop State := do
  let s ← s.settle
  match switch with
  | .noColour => s.once .noColour fun o ↦ { o with noColour := true }
  | .verbose =>
    let verbosity := min (s.options.verbosity + 1) verbosityLimit
    .ok { s with options := { s.options with verbosity } }
  | .help => .error .help
  | .version => .error .version
  | _ => .error .invalidValue

/-- An option that takes a value, and the value if it came with it. -/
def option (s : State) (switch : Switch) (text? : Option String) : Except UsageStop State := do
  let s ← s.settle
  match text? with
  | some text => s.store switch text
  | none => .ok { s with pending := .awaiting switch }

/-- An option given as a word, perhaps with a value behind an equals sign. -/
def word (s : State) (text : List Char) : Except UsageStop State :=
  let name := text.takeWhile (· != '=')
  let text? := (text.drop name.length).tail?.map String.ofList
  match Switch.ofWord? (String.ofList name) with
  | none => .error .unknownArgument
  | some switch =>
    if switch.takesValue then s.option switch text?
    else if text?.isSome then .error .tooManyValues
    else s.flag switch

/-- Options given as letters in a row; the first that takes a value takes the rest of the row. -/
def letters (s : State) : List Char → Except UsageStop State
  | [] => .ok s
  | c :: cs =>
    match Switch.ofLetter? c with
    | none => .error .unknownArgument
    | some switch =>
      if switch.takesValue then
        let text := if cs.head? = some '=' then cs.drop 1 else cs
        s.option switch (if cs = [] then none else some (String.ofList text))
      else do
        let s ← s.flag switch
        s.letters cs

/-- A path. There can be only one. -/
def positional (s : State) (text : String) : Except UsageStop State :=
  if s.hasPath then .error .unknownArgument
  else do
    let s ← s.settle
    .ok { s with pending := .path text, hasPath := true }

/-- An argument that is no option. -/
def plain (s : State) (text : String) : Except UsageStop State :=
  match s.pending with
  | .awaiting switch => .ok { s with pending := .value switch text }
  | _ => s.positional text

/-- One more argument. -/
def argument (s : State) (text : String) : Except UsageStop State :=
  if s.onlyPaths then s.positional text
  else
    match text.toList with
    | ['-', '-'] => .ok { s with onlyPaths := true }
    | '-' :: '-' :: cs => s.word cs
    | '-' :: c :: cs => s.letters (c :: cs)
    | _ => s.plain text

end State

/-- The options of a command line. -/
def parse (arguments : List String) : Except UsageStop Options := do
  let s ← arguments.foldlM State.argument {}
  return (← s.settle).options

/-- The name and version of the program. -/
def versionText : String :=
  "callmap " ++ version ++ "\n"

/-- What the program tells about itself. -/
def helpText : String :=
  "C call-site mapper - classifies every call in a C tree as internal or external\n" ++
  "\n" ++
  "Usage: callmap [OPTIONS] [PATH]\n" ++
  "\n" ++
  "Arguments:\n" ++
  "  [PATH]  Root directory to scan [default: .]\n" ++
  "\n" ++
  "Options:\n" ++
  "  -c, --config <CONFIG>  Path to config YAML file (default: auto-discover in PATH)\n" ++
  "  -f, --format <FORMAT>  Output format: pretty or json [default: pretty]\n" ++
  "  -i, --ignore <DIR>     Additional directory name to skip (repeatable)\n" ++
  "      --no-color         Disable colored output\n" ++
  "  -v, --verbose...       Increase log verbosity (-v info, -vv debug)\n" ++
  "  -h, --help             Print help\n" ++
  "  -V, --version          Print version\n"

end CommandLine

/-- What a command line that leads to no scan prints. -/
def UsageStop.output : UsageStop → String
  | .help => CommandLine.helpText
  | .version => CommandLine.versionText
  | _ => ""

/-- What is wrong with a command line. -/
def UsageStop.complaint : UsageStop → String
  | .help | .version => ""
  | .unknownArgument => "error: unexpected argument found\n"
  | .invalidValue => "error: a value is required for an argument but none was supplied\n"
  | .argumentConflict => "error: an argument cannot be used multiple times\n"
  | .tooManyValues => "error: unexpected value for an argument found; no more were expected\n"

/-- The exit code of a command line that leads to no scan. -/
def UsageStop.exitCode : UsageStop → Nat
  | .help | .version => 0
  | _ => 2

end CallSites
