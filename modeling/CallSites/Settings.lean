import CallSites.Text.Quoted
import CallSites.Vocabulary

/-!
# Settings

What a scan can be told: which directories it passes by, which files it reads, and which names are
neither declared nor called. Each has a default, so settings can always be left out.
-/

namespace CallSites

/-- The settings of a scan. -/
structure Settings where
  /-- Names of directories that are passed by at every depth. -/
  ignoredDirs : List String := ["bonus", "test"]
  /-- Endings of the files that are read, with or without leading dots. -/
  extensions : List String := ["c"]
  /-- Names that are neither declared nor called. -/
  excludedKeywords : List String := controlWords
  deriving Repr, DecidableEq

instance : Inhabited Settings := ⟨{}⟩

/-- Why settings cannot be used. -/
inductive SettingsFault where
  | noExtension
  | emptyExtension (extension : String)
  | notADirectoryName (name : String)
  deriving Repr, DecidableEq

/-- The reason that a fault gives. -/
def SettingsFault.reason : SettingsFault → String
  | .noExtension => "extensions must list at least one suffix"
  | .emptyExtension e => "empty extension " ++ Text.quoted e
  | .notADirectoryName n => "ignored_dirs entries are directory names, got " ++ Text.quoted n

/-- The wording of a fault. -/
def SettingsFault.message (f : SettingsFault) : String :=
  "invalid config: " ++ f.reason

namespace Settings

/-- The settings with further directories to pass by, each once, behind those they have. -/
def ignoring (s : Settings) (names : List String) : Settings :=
  { s with
    ignoredDirs :=
      names.foldl (fun dirs n ↦ if dirs.contains n then dirs else dirs ++ [n]) s.ignoredDirs }

/-- An extension without its leading dots. -/
def bareExtension (extension : String) : List Char :=
  extension.toList.dropWhile (· == '.')

/-- Whether `name` can be the name of a directory. -/
def isDirectoryName (name : String) : Bool :=
  name != "" && !name.toList.any fun c ↦ c == '/' || c == '\\'

/-- What keeps settings from being used, if anything: the first fault in the order in which the
settings are looked at. -/
def fault? (s : Settings) : Option SettingsFault :=
  if s.extensions = [] then some .noExtension
  else
    match s.extensions.find? fun e ↦ bareExtension e = [] with
    | some e => some (.emptyExtension e)
    | none => (s.ignoredDirs.find? fun n ↦ !isDirectoryName n).map .notADirectoryName

/-- Whether a directory of this name is passed by. -/
def ignores (s : Settings) (name : String) : Bool :=
  s.ignoredDirs.contains name

/-- Whether a file of this name is read. -/
def reads (s : Settings) (name : String) : Bool :=
  s.extensions.any fun e ↦ ('.' :: bareExtension e).isSuffixOf name.toList

/-- The names that are neither declared nor called. -/
def keywords (s : Settings) : Keywords :=
  ⟨s.excludedKeywords⟩

end Settings

end CallSites
