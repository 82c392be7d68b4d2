import CallSites.FileTree.Basic
import CallSites.Settings

/-!
# Walking a tree

The source files below a root are listed directory by directory, each directory in the order of its
names. Links are followed. A link back to a directory that is being listed would never end, so it is
reported instead, as is a link that leads nowhere and a directory that may not be listed; the walk
goes on behind each of them.

Directories with an ignored name are passed by, except for the root itself. Links are looked at
before their names are: a link that closes a loop is reported even if its name is ignored, and so is
a link to a directory that may not be opened to compare it with those being listed.

Only links are checked for loops, and the same directory may well come up twice on one way, as a
sub-directory of what a link led to. The walk still ends: a link either leads to a directory that is
not being listed yet, of which there are finitely many, or is not entered; and between two links the
directories get smaller.
-/

namespace CallSites

/-- What a walk can stumble over. -/
inductive WalkFault where
  | io (path : String) (error : OsError)
  /-- A link to a directory that is being listed as `ancestor`. -/
  | loop (path ancestor : String)
  /-- A link to a directory that cannot be opened. -/
  | unopened (path : String) (error : OsError)
  deriving Repr, DecidableEq

/-- The wording of a fault. -/
def WalkFault.message : WalkFault → String
  | .io path error => "IO error for operation on " ++ path ++ ": " ++ error.message
  | .loop path ancestor =>
    "File system loop found: " ++ path ++ " points to an ancestor " ++ ancestor
  -- the only fault that does not name its path
  | .unopened _ error => error.message

/-- What a walk comes by. -/
inductive WalkItem where
  | source (path : String)
  | fault (fault : WalkFault)
  deriving Repr, DecidableEq

/-- A directory that is being listed: where it stands, and the path that led there. -/
structure Listing where
  spot : Spot
  path : String
  deriving Repr, DecidableEq

/-- Entries in the order of their names. -/
def sortEntries (entries : List (String × FileTree)) : List (String × FileTree) :=
  entries.mergeSort fun a b ↦ !decide (b.1 < a.1)

/-- A file that is no directory, as far as the settings want it. -/
def walkFile (settings : Settings) (path name : String) : FileTree → List WalkItem
  | .file _ | .faulty => if settings.reads name then [.source path] else []
  | _ => []

/-- A directory that may not be listed, as far as its name is not ignored. -/
def walkBarred (settings : Settings) (path name : String) : List WalkItem :=
  if settings.ignores name then [] else [.fault (.io path .permissionDenied)]

/-- The number of directories that are not being listed. -/
def unlisted (fs : FileSystem) (above : List Listing) : Nat :=
  fs.top.directories.countP fun spot ↦ !above.any (·.spot == spot)

/-- Fewer members pass a stronger test, if it rejects one that passed. -/
theorem countP_lt_countP {α : Type} {p q : α → Bool} {l : List α} {a : α}
    (hpq : ∀ x, p x → q x) (ha : a ∈ l) (hq : q a) (hp : ¬p a) : l.countP p < l.countP q := by
  induction l with
  | nil => simp at ha
  | cons b l ih =>
    rw [List.countP_cons, List.countP_cons]
    rcases List.mem_cons.1 ha with rfl | ha
    · rw [if_neg hp, if_pos hq]
      exact Nat.lt_succ_of_le (List.countP_mono_left fun x _ ↦ hpq x)
    · have hlt := ih ha
      by_cases hb : p b
      · rw [if_pos hb, if_pos (hpq b hb)]
        omega
      · rw [if_neg hb]
        omega

theorem unlisted_cons_le (fs : FileSystem) (above : List Listing) (l : Listing) :
    unlisted fs (l :: above) ≤ unlisted fs above :=
  List.countP_mono_left fun spot _ h ↦ by
    rw [List.any_cons, Bool.not_or, Bool.and_eq_true] at h
    exact h.2

theorem unlisted_cons_lt {fs : FileSystem} {above : List Listing} {l : Listing}
    (hmem : l.spot ∈ fs.top.directories) (hnew : above.find? (·.spot == l.spot) = none) :
    unlisted fs (l :: above) < unlisted fs above := by
  refine countP_lt_countP (fun spot h ↦ ?_) hmem ?_ ?_
  · rw [List.any_cons, Bool.not_or, Bool.and_eq_true] at h
    exact h.2
  · rw [Bool.not_eq_true', List.any_eq_false]
    exact List.find?_eq_none.1 hnew
  · simp

/-- What comes up below a directory that is being listed at `path`, the last of `above`. -/
def walkBelow (fs : FileSystem) (settings : Settings) (above : List Listing) (path : String)
    (spot : Spot) (entries : List (String × FileTree)) : List WalkItem :=
  (sortEntries entries).attach.flatMap fun ⟨(name, t), _hmem⟩ ↦
    let here := joinPath path name
    match t with
    | .dir inner =>
      if settings.ignores name then []
      else walkBelow fs settings (⟨spot ++ [name], here⟩ :: above) here (spot ++ [name]) inner
    | .link _ =>
      match _hfind : fs.find here with
      | .error e => [.fault (.io here e)]
      | .ok (target, .dir inner) =>
        match _hloop : above.find? (·.spot == target) with
        | some listing => [.fault (.loop here listing.path)]
        | none =>
          if settings.ignores name then []
          else walkBelow fs settings (⟨target, here⟩ :: above) here target inner
      | .ok (_, .barred) => [.fault (.unopened here .permissionDenied)]
      | .ok (_, other) => walkFile settings here name other
    | .barred => walkBarred settings here name
    | other => walkFile settings here name other
termination_by (unlisted fs above, sizeOf entries)
decreasing_by
  · have hin : (name, FileTree.dir inner) ∈ entries := List.mem_mergeSort.1 _hmem
    have hsize := List.sizeOf_lt_of_mem hin
    simp only [Prod.mk.sizeOf_spec, FileTree.dir.sizeOf_spec] at hsize
    rcases Nat.lt_or_eq_of_le (unlisted_cons_le fs above ⟨spot ++ [name], here⟩) with hlt | heq
    · exact Prod.Lex.left _ _ hlt
    · rw [heq]
      exact Prod.Lex.right _ (by omega)
  · exact Prod.Lex.left _ _ (unlisted_cons_lt
      (FileTree.mem_directories_of_at? (FileSystem.at?_of_find _hfind)) _hloop)

/-- What a walk from a root comes by, in order. -/
def walk (fs : FileSystem) (settings : Settings) (root : String) : List WalkItem :=
  match fs.find root with
  | .error e => [.fault (.io root e)]
  | .ok (spot, .dir entries) => walkBelow fs settings [⟨spot, root⟩] root spot entries
  | .ok (_, .barred) =>
    [.fault (if fs.isLink root then .unopened root .permissionDenied
      else .io root .permissionDenied)]
  | .ok (_, other) => walkFile settings root (lastName root) other

end CallSites
