import CallSites.Calls
import CallSites.Declared

/-!
# Reports

The findings of all files are added up in order of discovery, and every called name is then filed by
whether some file declares it: *internal* if so, *external* if not. Only names decide; neither the
file, nor the scope, nor the linkage of a definition matters.
-/

namespace CallSites

/-- What one file declares and calls. -/
structure FileFindings where
  file : String
  declarations : NameSet
  calls : Record

/-- The findings in the text of a file. -/
def FileFindings.ofText (keywords : Keywords) (file : String) (text : List Char) :
    FileFindings where
  file
  declarations := declared keywords text
  calls := .ofCalls (CallSites.calls keywords file text)

/-- What a whole tree declares and calls. -/
structure Findings where
  declarations : NameSet := ∅
  calls : Record := ∅
  /-- The number of files added up. -/
  files : Nat := 0

namespace Findings

/-- The findings with those of one more file. -/
def add (f : Findings) (g : FileFindings) : Findings where
  declarations := f.declarations.union g.declarations
  calls := f.calls.merge g.calls
  files := f.files + 1

/-- The findings of a sequence of files. -/
def ofFiles (files : List FileFindings) : Findings :=
  files.foldl add {}

end Findings

/-- Called names by whether the tree declares them. -/
structure Report where
  internal : List Entry := []
  external : List Entry := []
  /-- The number of files read. -/
  files : Nat := 0
  /-- The number of declared names. -/
  declarations : Nat := 0
  deriving Repr, DecidableEq

namespace Report

/-- The number of internal calls. -/
def internalCount (r : Report) : Nat :=
  countLocations r.internal

/-- The number of external calls. -/
def externalCount (r : Report) : Nat :=
  countLocations r.external

/-- The number of calls. -/
def total (r : Report) : Nat :=
  r.internalCount + r.externalCount

/-- The first internal entry of a name. -/
def internal? (r : Report) (name : String) : Option Entry :=
  r.internal.find? (·.name == name)

/-- The first external entry of a name. -/
def external? (r : Report) (name : String) : Option Entry :=
  r.external.find? (·.name == name)

end Report

/-- The report on a tree: its called names, in order, each on the side its declarations put it. -/
def Findings.report (f : Findings) : Report :=
  let (internal, external) :=
    f.calls.entries.toList.partition fun e ↦ decide (e.name ∈ f.declarations)
  { internal, external, files := f.files, declarations := f.declarations.size }

end CallSites
