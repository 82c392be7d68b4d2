import CallSites.FileTree.Basic
import CallSites.Settings.Document
import CallSites.Text.Utf8

/-!
# Settings in a file

Settings are taken from a file that is named outright, or else from one of two files in the root of
the scan, if it is there.
-/

namespace CallSites

/-- Why settings cannot be loaded from a file. -/
inductive LoadError where
  | unreadable (path : String) (error : OsError)
  | notText (path : String)
  | document (error : SettingsError)
  deriving Repr, DecidableEq

/-- The wording of an error. -/
def LoadError.message : LoadError → String
  | .unreadable path error => "cannot read config " ++ path ++ ": " ++ error.message
  | .notText path => "cannot read config " ++ path ++ ": stream did not contain valid UTF-8"
  | .document error => error.message

namespace Settings

/-- The names of a settings file in a root, the preferred one first. -/
def fileNames : List String :=
  ["callmap.yaml", ".callmap.yaml"]

/-- The settings file in a root. -/
def discover (fs : FileSystem) (root : String) : Option String :=
  (fileNames.map (joinPath root)).find? fs.isFile

/-- The settings in the file at a path. -/
def load (fs : FileSystem) (path : String) : Except LoadError Settings :=
  match fs.read path with
  | .error e => .error (.unreadable path e)
  | .ok bytes =>
    match Text.decode? bytes with
    | none => .error (.notText path)
    | some text =>
      match Settings.parse text with
      | .error e => .error (.document e)
      | .ok s => .ok s

end Settings

end CallSites
