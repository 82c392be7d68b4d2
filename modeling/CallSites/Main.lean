import CallSites.Program

/-!
# The command

The outer layer: it takes a snapshot of the disk, as far as a run can ask for it, lets the run
happen on the snapshot, and shows the outcome. Links are kept by where they lead in the end.
-/

namespace CallSites.Command

/-- A snapshot in the making. -/
structure Survey where
  system : FileSystem
  /-- The directories that have been listed. -/
  listed : List String := []

/-- An action that adds to a snapshot. -/
abbrev SurveyM := StateT Survey IO

/-- Adds what stands at a path. -/
def add (path : String) (tree : FileTree) : SurveyM Unit :=
  modify fun s ↦ { s with system := s.system.put path tree }

/-- Adds a file. Its contents are read only if they are needed, and kept if they have been. -/
def addFile (path : String) (needed : Bool) : SurveyM Unit := do
  if needed then
    try
      add path (.file (← IO.FS.readBinFile path).toList)
    catch _ => add path .faulty
  else
    unless (← get).system.isFile path do
      add path (.file [])

/-- The entry for a path from the top. -/
def entryAt (path : String) : IO.FS.DirEntry :=
  { root := "/", fileName := path }

/-- What a link stands for: where it leads, nothing if it leads nowhere, itself if it never ends. -/
def linkTarget (path : String) : IO String := do
  try
    let _ ← (entryAt path).path.metadata
    return (← IO.FS.realPath path).toString
  catch
    | .noFileOrDirectory .. => return ""
    | _ => return lastName path

/-- What kind of thing stands at a path, links not followed. -/
def kindAt (path : String) : IO (Option IO.FS.FileType) := do
  try
    return some (← (entryAt path).path.symlinkMetadata).type
  catch _ => return none

/-- Whether a directory may be entered. -/
def mayEnter (path : String) : IO Bool := do
  try
    let _ ← (entryAt (joinPath path ".")).path.symlinkMetadata
    return true
  catch _ => return false

/-- The entries of a directory, if it may be listed. -/
def entriesOf (path : String) : IO (Option (Array IO.FS.DirEntry)) := do
  try
    return some (← (entryAt path).path.readDir)
  catch _ => return none

/-- Adds what stands at a path and on the way there, with the contents if it is a file. -/
partial def gather (path : String) : SurveyM Unit := do
  let names := (pathNames path).filter (· != "")
  for count in [1:names.length + 1] do
    let way := "/" ++ String.intercalate "/" (names.take count)
    unless lastName way == "." || lastName way == ".." do
      match ← kindAt way with
      | some .dir => add way (if ← mayEnter way then .dir [] else .barred)
      | some .file => addFile way (count == names.length)
      | some .other => add way .device
      | some .symlink =>
        let target ← linkTarget way
        add way (.link target)
        if isAbsolute target then
          gather target
      | none => return

/-- Adds what a scan with the given settings can come by below a directory. -/
partial def list (settings : Settings) (path : String) : SurveyM Unit := do
  unless (← get).listed.contains path do
    modify fun s ↦ { s with listed := path :: s.listed }
    let some entries ← entriesOf path | add path .barred
    for entry in entries do
      let name := entry.fileName
      let here := joinPath path name
      match ← kindAt here with
      | some .dir =>
        add here (.dir [])
        unless settings.ignores name do
          list settings here
      | some .file => addFile here (settings.reads name)
      | some .symlink =>
        gather here
        let target ← linkTarget here
        if isAbsolute target && !settings.ignores name then
          if let some .dir ← kindAt target then
            list settings target
      | _ => add here .device

/-- A path as seen from the top. -/
def fromTop (here path : String) : String :=
  if isAbsolute path then path else joinPath here path

/-- The snapshot that a run with the given options needs. -/
def snapshot (o : Options) : IO FileSystem := do
  let here := (← IO.currentDir).toString
  let start : FileSystem := { top := .dir [], here := (pathNames here).filter (· != "") }
  let files := o.settingsFile.toList ++ Settings.fileNames.map (joinPath o.path)
  let act : SurveyM Unit := do
    for path in here :: o.path :: files do
      gather (fromTop here path)
    if let (.ok settings, _) := (o.settings (← get).system).run.run [] then
      let root ← linkTarget (fromTop here o.path)
      if isAbsolute root then
        if let some .dir ← kindAt root then
          list settings root
  return (← act.run { system := start }).2.system

/-- What the surroundings say, as variables and as the place of the output. -/
def surroundings : IO Surroundings := do
  let force ← IO.getEnv "CLICOLOR_FORCE"
  let offer ← IO.getEnv "CLICOLOR"
  let refusal ← IO.getEnv "NO_COLOR"
  let level ← IO.getEnv "RUST_LOG"
  return {
    forcesColour := force.any (· != "0")
    refusesColour := refusal.isSome || offer == some "0"
    onTerminal := ← (← IO.getStdout).isTty
    threshold := level.bind Level.ofName? }

end CallSites.Command

open CallSites in
/-- Reads the command line, runs, and shows the outcome. -/
def main (arguments : List String) : IO UInt32 := do
  match CommandLine.parse arguments with
  | .error stop =>
    IO.print stop.output
    IO.eprint stop.complaint
    return stop.exitCode.toUInt32
  | .ok options =>
    let outcome := run (← Command.snapshot options) (← Command.surroundings) options
    for line in outcome.log ++ outcome.complaint.toList do
      IO.eprintln line
    IO.print outcome.output
    return outcome.exitCode.toUInt32
