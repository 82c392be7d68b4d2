import CallSites.FileTree.Walk
import CallSites.Report
import CallSites.Text.Utf8

/-!
# Scanning a tree

A scan reads the source files of a tree in the order of the walk, and stops at the first thing that
cannot be walked or read: what a tree declares and calls is not worth knowing with files missing.
Files need not be sound text; damaged characters in them are replaced.
-/

namespace CallSites

/-- What ends a scan. -/
inductive ScanError where
  | read (path : String) (error : OsError)
  | walk (root : String) (fault : WalkFault)
  deriving Repr, DecidableEq

/-- The wording of an error. -/
def ScanError.message : ScanError → String
  | .read path error => "cannot read " ++ path ++ ": " ++ error.message
  | .walk root fault => "cannot walk " ++ root ++ ": " ++ fault.message

/-- The findings in one item of a walk. -/
def scanItem (fs : FileSystem) (settings : Settings) (root : String) :
    WalkItem → Except ScanError FileFindings
  | .fault f => .error (.walk root f)
  | .source path =>
    match fs.read path with
    | .error e => .error (.read path e)
    | .ok bytes => .ok (.ofText settings.keywords path (Text.decode bytes))

/-- The results for the items of a list, up to the first failure, and that failure. -/
def upToFailure {α β ε : Type} (f : α → Except ε β) : List α → List β × Option ε
  | [] => ([], none)
  | a :: as =>
    match f a with
    | .error e => ([], some e)
    | .ok b =>
      let (bs, e) := upToFailure f as
      (b :: bs, e)

/-- The findings in the files of a tree, up to the first failure, and that failure. -/
def scanFiles (fs : FileSystem) (settings : Settings) (root : String) :
    List FileFindings × Option ScanError :=
  upToFailure (scanItem fs settings root) (walk fs settings root)

/-- The findings in a whole tree. -/
def scanTree (fs : FileSystem) (settings : Settings) (root : String) : Except ScanError Findings :=
  match scanFiles fs settings root with
  | (files, none) => .ok (.ofFiles files)
  | (_, some e) => .error e

end CallSites
