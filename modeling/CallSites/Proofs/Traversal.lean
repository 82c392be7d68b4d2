import Mathlib.Data.List.Perm.Basic
import Mathlib.Logic.Relation
import CallSites.Proofs.Walk

/-!
# Every walk ends

A walk was defined as the list of what it comes by, and a list has an end. Here it is taken step by
step, as it happens: a stack of directories that are being listed, each with the entries that are
still to come, and in one step an entry is taken from the innermost of them. Nothing in a step says
that there will be a last one.

## Why there is a last step

Only links are looked up among the directories that are being listed. An ordinary sub-directory is
entered without a look, and one and the same directory can stand on the stack many times: below a
link to a directory that holds the root, the root comes up again under its own name. So it is not
enough to count the directories that are not on the stack. A step through a link makes them fewer; a
step into a sub-directory does not make them more, and what is left to list there is a part of what
was left to list above. The two counts together go down, the first one first, and this carries the
induction over stacks in `Traversal.acc_cons`.

The steps come by the items of the walk because what has come up and what is still ahead, taken
together, stay the same in every step.
-/

namespace CallSites

/-- A directory that is being listed, with the entries that are still to come. -/
structure OpenDirectory extends Listing where
  pending : List (String × FileTree)

/-- What becomes of an entry that is taken from its directory. -/
inductive Visit where
  /-- It is done with, and these items have come up. -/
  | passed (items : List WalkItem)
  /-- It leads to a directory, which is listed before anything else. -/
  | entered (directory : OpenDirectory)

/-- The visit to an entry of the directory at `spot`, the last of the `above`. -/
def visit (fs : FileSystem) (settings : Settings) (above : List Listing) (path : String)
    (spot : Spot) (name : String) : FileTree → Visit
  | .dir inner =>
    if settings.ignores name then .passed []
    else .entered ⟨⟨spot ++ [name], joinPath path name⟩, sortEntries inner⟩
  | .link _ =>
    match fs.find (joinPath path name) with
    | .error e => .passed [.fault (.io (joinPath path name) e)]
    | .ok (there, .dir inner) =>
      match above.find? (·.spot == there) with
      | some listing => .passed [.fault (.loop (joinPath path name) listing.path)]
      | none =>
        if settings.ignores name then .passed []
        else .entered ⟨⟨there, joinPath path name⟩, sortEntries inner⟩
    | .ok (_, .barred) => .passed [.fault (.unopened (joinPath path name) .permissionDenied)]
    | .ok (_, other) => .passed (walkFile settings (joinPath path name) name other)
  | .barred => .passed (walkBarred settings (joinPath path name) name)
  | other => .passed (walkFile settings (joinPath path name) name other)

/-- A walk under way. -/
structure Traversal where
  /-- The directories that are being listed, the innermost first. -/
  stack : List OpenDirectory
  /-- What has come up so far, in order. -/
  items : List WalkItem

namespace Traversal

/-- A walk about to begin. -/
def start (fs : FileSystem) (settings : Settings) (root : String) : Traversal :=
  match fs.find root with
  | .error e => ⟨[], [.fault (.io root e)]⟩
  | .ok (spot, .dir entries) => ⟨[⟨⟨spot, root⟩, sortEntries entries⟩], []⟩
  | .ok (_, .barred) =>
    ⟨[], [.fault (if fs.isLink root then .unopened root .permissionDenied
      else .io root .permissionDenied)]⟩
  | .ok (_, other) => ⟨[], walkFile settings root (lastName root) other⟩

/-- One step: an entry of the innermost directory is visited, or, when none is left, that directory
is done with. Without a directory there is no step. -/
def step (fs : FileSystem) (settings : Settings) (s : Traversal) : Option Traversal :=
  match s.stack with
  | [] => none
  | ⟨_, []⟩ :: outer => some ⟨outer, s.items⟩
  | ⟨listing, (name, t) :: pending⟩ :: outer =>
    let above := listing :: outer.map (·.toListing)
    match visit fs settings above listing.path listing.spot name t with
    | .passed items => some ⟨⟨listing, pending⟩ :: outer, s.items ++ items⟩
    | .entered directory => some ⟨directory :: ⟨listing, pending⟩ :: outer, s.items⟩

/-- `s'` is one step behind `s`. -/
def Steps (fs : FileSystem) (settings : Settings) (s s' : Traversal) : Prop :=
  s.step fs settings = some s'

end Traversal

section

variable {fs : FileSystem} {settings : Settings} {above : List Listing} {path name : String}
  {spot : Spot} {t : FileTree} {s s' : Traversal}

/-! ## What a step costs -/

/-- A directory that is entered stands below the one it was found in, or was not being listed. -/
theorem visit_eq_entered {directory : OpenDirectory}
    (h : visit fs settings above path spot name t = .entered directory) :
    (∃ inner, t = .dir inner ∧ directory.pending = sortEntries inner) ∨
      (directory.spot ∈ fs.top.directories ∧
        above.find? (·.spot == directory.spot) = none) := by
  cases t with
  | dir inner =>
    dsimp only [visit] at h
    split at h
    · cases h
    · cases h
      exact .inl ⟨inner, rfl, rfl⟩
  | link target =>
    dsimp only [visit] at h
    split at h
    · cases h
    · rename_i there inner hfind
      split at h
      · cases h
      · rename_i hloop
        split at h
        · cases h
        · cases h
          exact .inr ⟨FileTree.mem_directories_of_at? (FileSystem.at?_of_find hfind), hloop⟩
    · cases h
    · cases h
  | _ => cases h

/-- **To enter a directory leaves less to do**: there are fewer directories that are not being
listed, or no more of them and fewer entries to come. -/
theorem lex_of_visit_eq_entered (pending : List (String × FileTree)) {directory : OpenDirectory}
    (h : visit fs settings above path spot name t = .entered directory) :
    Prod.Lex (· < ·) (· < ·)
      (unlisted fs (directory.toListing :: above), sizeOf directory.pending)
      (unlisted fs above, sizeOf ((name, t) :: pending)) := by
  rcases visit_eq_entered h with ⟨inner, rfl, hinner⟩ | ⟨hmem, hnew⟩
  · -- the sub-directory may be on the stack already, but it is smaller than what held it
    have hsize : sizeOf directory.pending = sizeOf inner := by
      rw [hinner]
      exact (List.mergeSort_perm inner _).sizeOf_eq_sizeOf
    have hlt : sizeOf directory.pending < sizeOf ((name, FileTree.dir inner) :: pending) := by
      rw [hsize, List.cons.sizeOf_spec, Prod.mk.sizeOf_spec, FileTree.dir.sizeOf_spec]
      omega
    rcases Nat.lt_or_eq_of_le (unlisted_cons_le fs above directory.toListing) with hless | hsame
    · exact .left _ _ hless
    · rw [hsame]
      exact .right _ hlt
  · exact .left _ _ (unlisted_cons_lt hmem hnew)

namespace Traversal

/-! ## No walk goes on for ever -/

/-- **A directory can be listed to its end**, if the walk ends with the directories around it. -/
theorem acc_cons (listing : Listing) (pending : List (String × FileTree))
    {outer : List OpenDirectory}
    (houter : ∀ items, Acc (fun s' s ↦ Steps fs settings s s') ⟨outer, items⟩)
    (items : List WalkItem) :
    Acc (fun s' s ↦ Steps fs settings s s') ⟨⟨listing, pending⟩ :: outer, items⟩ := by
  refine ⟨_, fun s' hstep ↦ ?_⟩
  cases pending with
  | nil =>
    cases hstep
    exact houter items
  | cons e pending =>
    obtain ⟨name, t⟩ := e
    -- with the entry taken, the directory itself is listed to its end
    have hrest : ∀ items, Acc (fun s' s ↦ Steps fs settings s s')
        ⟨⟨listing, pending⟩ :: outer, items⟩ := acc_cons listing pending houter
    dsimp only [Steps, step] at hstep
    split at hstep
    · cases hstep
      exact hrest _
    · rename_i directory hvisit
      cases hstep
      have hless := lex_of_visit_eq_entered pending hvisit
      exact acc_cons directory.toListing directory.pending hrest items
termination_by (unlisted fs (listing :: outer.map (·.toListing)), sizeOf pending)
decreasing_by
  · refine .right _ ?_
    rw [List.cons.sizeOf_spec]
    omega
  · exact hless

theorem wellFounded_steps (fs : FileSystem) (settings : Settings) :
    WellFounded fun s' s ↦ Steps fs settings s s' := by
  refine ⟨fun ⟨stack, items⟩ ↦ ?_⟩
  induction stack generalizing items with
  | nil => exact ⟨_, fun s' hstep ↦ nomatch hstep⟩
  | cons directory outer ih => exact acc_cons directory.toListing directory.pending ih items

/-- So every walk under way comes to a last step. -/
theorem exists_last (fs : FileSystem) (settings : Settings) (s : Traversal) :
    ∃ last, Relation.ReflTransGen (Steps fs settings) s last ∧ last.step fs settings = none := by
  induction s using (wellFounded_steps fs settings).induction with
  | _ s ih =>
    rcases hstep : s.step fs settings with _ | s'
    · exact ⟨s, .refl, hstep⟩
    · obtain ⟨last, hreach, hlast⟩ := ih s' hstep
      exact ⟨last, hreach.head hstep, hlast⟩

/-! ## What a walk comes by -/

/-- What is still ahead of a stack of directories. -/
def ahead (fs : FileSystem) (settings : Settings) : List OpenDirectory → List WalkItem
  | [] => []
  | directory :: outer =>
    (directory.pending.flatMap fun e ↦
      walkEntry fs settings (directory.toListing :: outer.map (·.toListing)) directory.path
        directory.spot e.1 e.2) ++ ahead fs settings outer

/-- A visit is the beginning of what comes up at an entry. -/
theorem walkEntry_eq_visit (fs : FileSystem) (settings : Settings) (above : List Listing)
    (path : String) (spot : Spot) (name : String) (t : FileTree) :
    walkEntry fs settings above path spot name t =
      match visit fs settings above path spot name t with
      | .passed items => items
      | .entered directory => directory.pending.flatMap fun e ↦
          walkEntry fs settings (directory.toListing :: above) directory.path directory.spot
            e.1 e.2 := by
  cases t with
  | dir inner =>
    rw [walkEntry, visit]
    split
    · rfl
    · exact walkBelow_eq fs settings _ _ _ inner
  | link target =>
    rw [walkEntry, visit]
    rcases fs.find (joinPath path name) with e | ⟨there, u⟩
    · rfl
    · cases u with
      | dir inner =>
        dsimp only
        cases above.find? (·.spot == there) with
        | none =>
          dsimp only
          split
          · rfl
          · exact walkBelow_eq fs settings _ _ _ inner
        | some listing => rfl
      | _ => rfl
  | _ => rfl

/-- **A step keeps what has come up and what is ahead.** -/
theorem Steps.items_append_ahead (h : Steps fs settings s s') :
    s'.items ++ ahead fs settings s'.stack = s.items ++ ahead fs settings s.stack := by
  obtain ⟨stack, items⟩ := s
  match stack with
  | [] => cases h
  | ⟨listing, []⟩ :: outer =>
    cases h
    rfl
  | ⟨listing, (name, t) :: pending⟩ :: outer =>
    have hentry := walkEntry_eq_visit fs settings (listing :: outer.map (·.toListing)) listing.path
      listing.spot name t
    dsimp only [Steps, step] at h
    split at h
    · rename_i found hvisit
      rw [hvisit] at hentry
      cases h
      simp only [ahead, List.flatMap_cons, hentry, List.append_assoc]
    · rename_i directory hvisit
      rw [hvisit] at hentry
      cases h
      simp only [ahead, List.flatMap_cons, hentry, List.map_cons, List.append_assoc]

theorem items_append_ahead_of_reflTransGen (h : Relation.ReflTransGen (Steps fs settings) s s') :
    s'.items ++ ahead fs settings s'.stack = s.items ++ ahead fs settings s.stack := by
  induction h with
  | refl => rfl
  | tail _ hstep ih => rw [hstep.items_append_ahead, ih]

/-- At the start the whole walk is ahead. -/
theorem items_append_ahead_start (fs : FileSystem) (settings : Settings) (root : String) :
    (start fs settings root).items ++ ahead fs settings (start fs settings root).stack =
      walk fs settings root := by
  rw [start, walk]
  rcases fs.find root with e | ⟨spot, t⟩
  · rfl
  · cases t with
    | dir entries =>
      dsimp only
      rw [walkBelow_eq, ahead, ahead, List.nil_append, List.append_nil, List.map_nil]
    | _ => exact List.append_nil _

/-- Where no step is left, nothing is. -/
theorem stack_eq_nil_of_step (h : s.step fs settings = none) : s.stack = [] := by
  obtain ⟨stack, items⟩ := s
  match stack with
  | [] => rfl
  | ⟨listing, []⟩ :: outer => cases h
  | ⟨listing, (name, t) :: pending⟩ :: outer =>
    dsimp only [step] at h
    split at h <;> cases h

end Traversal

end

/-- **Every walk ends.** However the links of a snapshot lead, and whatever is being listed, no walk
can be continued for ever; and the walk from a root comes, after finitely many steps, to a state in
which no directory is left, having come by exactly the items of the walk. -/
theorem walk_comes_to_an_end (fs : FileSystem) (settings : Settings) (root : String) :
    WellFounded (fun s' s ↦ Traversal.Steps fs settings s s') ∧
      ∃ last, Relation.ReflTransGen (Traversal.Steps fs settings)
          (Traversal.start fs settings root) last ∧
        last.step fs settings = none ∧ last.stack = [] ∧ last.items = walk fs settings root := by
  refine ⟨Traversal.wellFounded_steps fs settings, ?_⟩
  obtain ⟨last, hreach, hlast⟩ :=
    Traversal.exists_last fs settings (Traversal.start fs settings root)
  have hstack := Traversal.stack_eq_nil_of_step hlast
  have hkept := Traversal.items_append_ahead_of_reflTransGen hreach
  rw [Traversal.items_append_ahead_start, hstack, Traversal.ahead, List.append_nil] at hkept
  exact ⟨last, hreach, hlast, hstack, hkept⟩

end CallSites
