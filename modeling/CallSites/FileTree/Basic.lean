/-!
# File trees

A snapshot of a file system: what stands where, with the contents of files and the targets of links.
A place in it is the list of names that leads there from the top. Paths, in contrast, are texts:
they may start at the working directory, go up, and pass through links, and resolving one means
finding its place or the reason why it has none.
-/

namespace CallSites

/-- What stands at a place. -/
inductive FileTree where
  | file (contents : List UInt8)
  /-- A regular file whose contents cannot be read. -/
  | faulty
  /-- A special file, which reads as empty. -/
  | device
  | link (target : String)
  | dir (entries : List (String × FileTree))
  /-- A directory that may be neither listed nor entered. -/
  | barred

/-- Whether something is a link. -/
def FileTree.isLink : FileTree → Bool
  | link _ => true
  | _ => false

/-- A place: the names that lead there from the top, links and dots apart. -/
abbrev Spot := List String

/-- What stands at a place below a tree. -/
def FileTree.at? (t : FileTree) : Spot → Option FileTree
  | [] => some t
  | name :: names =>
    match t with
    | dir entries =>
      match entries.lookup name with
      | some child => child.at? names
      | none => none
    | _ => none

/-- The tree with `new` at a place below it, and directories on the way there as needed. An empty
directory does not replace one that is there. -/
def FileTree.insert (t : FileTree) (spot : Spot) (new : FileTree) : FileTree :=
  match spot with
  | [] =>
    match t, new with
    | dir entries, dir [] => dir entries
    | barred, dir [] => barred
    | _, new => new
  | name :: names =>
    let entries :=
      match t with
      | dir entries => entries
      | _ => []
    let child := ((entries.lookup name).getD (dir [])).insert names new
    if entries.any (·.1 == name) then
      dir (entries.map fun e ↦ if e.1 == name then (name, child) else e)
    else dir (entries ++ [(name, child)])

mutual

/-- The places of all directories of a tree, its top included. -/
def FileTree.directories : FileTree → List Spot
  | .dir entries => [] :: directoriesIn entries
  | _ => []

/-- The places of all directories below a list of entries. -/
def FileTree.directoriesIn : List (String × FileTree) → List Spot
  | [] => []
  | (name, t) :: entries => (directories t).map (name :: ·) ++ directoriesIn entries

end

namespace FileTree

theorem mem_directoriesIn {entries : List (String × FileTree)} {name : String} {t : FileTree}
    {spot : Spot} (h : (name, t) ∈ entries) (hs : spot ∈ t.directories) :
    name :: spot ∈ directoriesIn entries := by
  induction entries with
  | nil => simp at h
  | cons e es ih =>
    obtain ⟨n, u⟩ := e
    rw [directoriesIn, List.mem_append]
    rcases List.mem_cons.1 h with heq | h
    · cases heq
      exact .inl (List.mem_map.2 ⟨spot, hs, rfl⟩)
    · exact .inr (ih h)

theorem mem_of_lookup {entries : List (String × FileTree)} {name : String} {t : FileTree}
    (h : entries.lookup name = some t) : (name, t) ∈ entries := by
  obtain ⟨before, after, rfl, -⟩ := List.lookup_eq_some_iff.mp h
  exact List.mem_append_right before List.mem_cons_self

/-- Every directory is among the directories. -/
theorem mem_directories_of_at? {t : FileTree} {spot : Spot} {entries : List (String × FileTree)}
    (h : t.at? spot = some (.dir entries)) : spot ∈ t.directories := by
  induction spot generalizing t with
  | nil =>
    cases h
    simp [directories]
  | cons name names ih =>
    cases t with
    | dir es =>
      rw [at?] at h
      split at h
      · rename_i child hlookup
        exact List.mem_cons_of_mem _ (mem_directoriesIn (mem_of_lookup hlookup) (ih h))
      · simp at h
    | _ => simp [at?] at h

end FileTree

/-! ## Failures -/

/-- Why the system refuses an operation on a path. -/
inductive OsError where
  | notFound
  | inputOutput
  | permissionDenied
  | notADirectory
  | isADirectory
  | tooManyLinks
  deriving Repr, DecidableEq

/-- The system's wording. -/
def OsError.message : OsError → String
  | .notFound => "No such file or directory (os error 2)"
  | .inputOutput => "Input/output error (os error 5)"
  | .permissionDenied => "Permission denied (os error 13)"
  | .notADirectory => "Not a directory (os error 20)"
  | .isADirectory => "Is a directory (os error 21)"
  | .tooManyLinks => "Too many levels of symbolic links (os error 40)"

/-! ## Paths -/

/-- The pieces of a path between its slashes. -/
def piecesOf : List Char → List (List Char)
  | [] => [[]]
  | c :: cs =>
    if c = '/' then [] :: piecesOf cs
    else
      match piecesOf cs with
      | [] => [[c]]
      | piece :: pieces => (c :: piece) :: pieces

/-- The names in a path, with the empty ones between and behind slashes. -/
def pathNames (path : String) : List String :=
  (piecesOf path.toList).map String.ofList

/-- Whether a path starts at the top. -/
def isAbsolute (path : String) : Bool :=
  path.toList.head? == some '/'

/-- The path of `name` in the directory at `path`. -/
def joinPath (path name : String) : String :=
  if path = "" ∨ path.toList.getLast? = some '/' then path ++ name else path ++ "/" ++ name

/-- The last name in a path. -/
def lastName (path : String) : String :=
  (pathNames path).getLastD ""

/-! ## Snapshots -/

/-- A snapshot, and the working directory in it. -/
structure FileSystem where
  top : FileTree
  here : Spot := []

namespace FileSystem

/-- How many links may be followed on the way to one place. -/
def linkLimit : Nat := 40

/-- Where a way along some names ends: at a place, or at a link that has to be followed first. -/
inductive Stop where
  | arrived (spot : Spot)
  /-- A link in the directory at `spot`, with the names that come behind it. -/
  | link (spot : Spot) (target : String) (names : List String)

/-- The way from a place along some names, up to the first link. Whatever has a name behind it, be
it an empty one, must be a directory, and one that may be entered unless all these names are
empty. -/
def advance (fs : FileSystem) (spot : Spot) : List String → Except OsError Stop
  | [] => .ok (.arrived spot)
  | name :: names =>
    match fs.top.at? spot with
    | some (.dir entries) =>
      if name = "" ∨ name = "." then fs.advance spot names
      else if name = ".." then fs.advance spot.dropLast names
      else
        match entries.lookup name with
        | none => .error .notFound
        | some (.link target) => .ok (.link spot target names)
        | some _ => fs.advance (spot ++ [name]) names
    | some .barred => if name = "" then fs.advance spot names else .error .permissionDenied
    | _ => .error .notADirectory

/-- The place reached from another along some names, if no more than `links` links are on the way. A
link without a target leads nowhere. -/
def resolveFrom (fs : FileSystem) : Nat → Spot → List String → Except OsError Spot
  | links, spot, names => do
    match ← fs.advance spot names with
    | .arrived spot => .ok spot
    | .link spot target names =>
      match links with
      | 0 => .error .tooManyLinks
      | links + 1 =>
        if target = "" then .error .notFound
        else
          fs.resolveFrom links (if isAbsolute target then [] else spot) (pathNames target ++ names)

/-- The place of a path. -/
def resolve (fs : FileSystem) (path : String) : Except OsError Spot :=
  if path = "" then .error .notFound
  else fs.resolveFrom linkLimit (if isAbsolute path then [] else fs.here) (pathNames path)

/-- Where names lead from a place, or would lead if directories were made from the first one on that
leads nowhere. -/
def placeFor (fs : FileSystem) (spot : Spot) : List String → Spot
  | [] => spot
  | name :: names =>
    match fs.resolveFrom linkLimit spot [name] with
    | .ok next => fs.placeFor next names
    | .error _ => spot ++ name :: names

/-- The snapshot with `new` at a path, and directories on the way there as needed. The last name of
the path is not followed if it is a link. -/
def put (fs : FileSystem) (path : String) (new : FileTree) : FileSystem :=
  let names := (pathNames path).filter (· != "")
  let parent := fs.placeFor (if isAbsolute path then [] else fs.here) names.dropLast
  { fs with top := fs.top.insert (parent ++ names.drop (names.length - 1)) new }

/-- What a path leads to, links followed, and its place. -/
def find (fs : FileSystem) (path : String) : Except OsError (Spot × FileTree) := do
  let spot ← fs.resolve path
  match fs.top.at? spot with
  | some t => .ok (spot, t)
  | none => .error .notFound

/-- Whatever is found stands at its place. -/
theorem at?_of_find {fs : FileSystem} {path : String} {spot : Spot} {t : FileTree}
    (h : fs.find path = .ok (spot, t)) : fs.top.at? spot = some t := by
  rw [find] at h
  cases hr : fs.resolve path with
  | error e => simp [hr, bind, Except.bind] at h
  | ok s =>
    simp only [hr, bind, Except.bind] at h
    split at h
    · cases h
      assumption
    · cases h

/-- Whether the last name of a path is a link, those before it followed. -/
def isLink (fs : FileSystem) (path : String) : Bool :=
  let names := pathNames path
  match fs.resolveFrom linkLimit (if isAbsolute path then [] else fs.here) names.dropLast with
  | .ok spot => (fs.top.at? (spot ++ [names.getLastD ""])).any (·.isLink)
  | .error _ => false

/-- Whether a path leads to a regular file. -/
def isFile (fs : FileSystem) (path : String) : Bool :=
  match fs.find path with
  | .ok (_, .file _) => true
  | .ok (_, .faulty) => true
  | _ => false

/-- The contents of what a path leads to. -/
def read (fs : FileSystem) (path : String) : Except OsError (List UInt8) := do
  match ← fs.find path with
  | (_, .file contents) => .ok contents
  | (_, .device) => .ok []
  | (_, .faulty) => .error .inputOutput
  | (_, .barred) => .error .permissionDenied
  | (_, .dir _) => .error .isADirectory
  | (_, .link _) => .error .tooManyLinks

end FileSystem

end CallSites
