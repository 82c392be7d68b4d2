import CallSites.Proofs.Walk

/-!
# Ignored directories

A directory with an ignored name is passed by wherever it stands, and so is a link of that name to a
directory: nothing that a walk comes by has a path below it. At the path itself nothing is found
either, with one exception. Links are resolved before their names are looked at, so a link that
leads back to a directory on its own way is reported as a loop, ignored or not. To find out whether
it does, the directory has to be opened, and a link to one that may not be opened is reported for
that.
-/

namespace CallSites

/-- The path that an item of a walk is about. -/
def WalkItem.path : WalkItem → String
  | .source path => path
  | .fault (.io path _) => path
  | .fault (.loop path _) => path
  | .fault (.unopened path _) => path

/-- A path is another one or leads below it. -/
def AtOrBelow (path other : String) : Prop :=
  path = other ∨ ∃ rest, path = other ++ "/" ++ rest

variable {fs : FileSystem} {settings : Settings} {root : String}

theorem FoundAlong.path_eq {names : List String} {item : WalkItem}
    (h : FoundAlong fs settings root names item) : item.path = pathAlong root names := by
  cases h <;> rfl

theorem AtOrBelow.exists_pathNames {path other : String} (h : AtOrBelow path other) :
    ∃ more, pathNames path = pathNames other ++ more := by
  rcases h with rfl | ⟨rest, rfl⟩
  · exact ⟨[], (List.append_nil _).symm⟩
  · exact ⟨pathNames rest, pathNames_append_slash other rest⟩

/-- A path at or below another along names that can be names begins with these names. -/
theorem AtOrBelow.isPrefix {names other : List String} (hnames : ∀ n ∈ names, isEntryName n)
    (hother : ∀ n ∈ other, n ≠ "" ∧ '/' ∉ n.toList) (hne : other ≠ [])
    (h : AtOrBelow (pathAlong root names) (pathAlong root other)) : other <+: names := by
  obtain ⟨more, hmore⟩ := h.exists_pathNames
  rw [pathNames_pathAlong root hne hother, List.append_assoc] at hmore
  by_cases hnil : names = []
  · -- the root itself has no name behind its stem, but for an empty one
    subst hnil
    obtain ⟨last, hlast, hroot⟩ := exists_pathNames_eq root
    have hnone := List.append_cancel_left (hroot.symm.trans hmore)
    obtain ⟨n, rest, rfl⟩ := List.exists_cons_of_ne_nil hne
    rcases hlast with rfl | rfl
    · cases hnone
    · have hn : n = "" := (List.cons.inj hnone).1.symm
      exact absurd hn (hother n List.mem_cons_self).1
  · rw [pathNames_pathAlong root hnil fun n hn ↦ ?_] at hmore
    · exact ⟨more, (List.append_cancel_left hmore).symm⟩
    · have hn := isEntryName_iff.mp (hnames n hn)
      exact ⟨hn.1, hn.2.2.2⟩

/-- **Ignored directories contribute nothing but loops.** Let a path below the root end in an
ignored name and lead to a directory, itself or through a link. A walk comes by nothing at or below
this path, unless the last name is a link to one of the directories on the way there; then it may
come by the report of that loop. It may also come by a link to a directory that cannot be opened. -/
theorem eq_loop_of_mem_walk_ignored (fs : FileSystem) (settings : Settings) (root : String)
    (way : List String) (name : String) (hsound : fs.top.isSound)
    (hnames : ∀ n ∈ way ++ [name], n ≠ "" ∧ '/' ∉ n.toList) (hignored : settings.ignores name)
    {spot : Spot} {t : FileTree}
    (htree : fs.find (pathAlong root (way ++ [name])) = .ok (spot, t)) (hdir : t.IsDirectory) :
    ∀ item ∈ walk fs settings root, AtOrBelow item.path (pathAlong root (way ++ [name])) →
      ((∃ k ≤ way.length, item =
            .fault (.loop (pathAlong root (way ++ [name])) (pathAlong root (way.take k))) ∧
          ∃ inner, fs.find (pathAlong root (way.take k)) = .ok (spot, .dir inner)) ∨
        t = .barred ∧
          item = .fault (.unopened (pathAlong root (way ++ [name])) .permissionDenied)) ∧
      ∃ parent entries link, fs.find (pathAlong root way) = .ok (parent, .dir entries) ∧
        (name, .link link) ∈ entries := by
  intro item hitem hbelow
  obtain ⟨names, hproper, hkept, hfound⟩ := exists_foundAlong_of_mem_walk hsound hitem
  rw [hfound.path_eq] at hbelow
  obtain ⟨more, rfl⟩ := hbelow.isPrefix hproper hnames (by simp)
  have hmore : more = [] := by
    by_contra hne
    -- with a further name behind it, the ignored one was passed through
    have hmem : name ∈ (way ++ [name] ++ more).dropLast := by
      rw [List.dropLast_append_of_ne_nil hne]
      simp
    rw [hkept name hmem] at hignored
    cases hignored
  subst hmore
  rw [List.append_nil] at hfound
  cases hfound with
  | source hfind hfile =>
    rw [htree] at hfind
    cases hfind
    exact absurd hdir hfile.not_isDirectory
  | unresolved hfind =>
    rw [htree] at hfind
    cases hfind
  | barred hfind hkept =>
    rw [hkept name (by simp)] at hignored
    cases hignored
  | unopened hfind hlink =>
    rw [htree] at hfind
    cases hfind
    exact ⟨.inr ⟨rfl, rfl⟩, hlink way name rfl⟩
  | @loop way' name' link parent spot' entries inner₁ inner' k heq hparent hlink hk hfind
      hancestor =>
    obtain ⟨rfl, rfl⟩ : way = way' ∧ name = name' := by simpa using heq
    rw [htree] at hfind
    cases hfind
    have hk' : k ≤ way.length := by simpa using Nat.le_of_lt_succ (by simpa using hk)
    rw [List.take_append_of_le_length hk'] at hancestor ⊢
    exact ⟨.inl ⟨k, hk', rfl, inner', hancestor⟩, parent, entries, link, hparent, hlink⟩

/-- A directory with a link to itself under an ignored name. -/
def selfLinked : FileSystem where
  top := .dir [("p", .dir [("test", .link ".")])]

theorem find_selfLinked : selfLinked.find "p" = .ok (["p"], .dir [("test", .link ".")]) := by
  refine FileSystem.find_eq_ok_iff.mpr ⟨by decide, ?_, rfl⟩
  exact FileSystem.resolveFrom_of_arrived rfl

theorem find_selfLinked_test :
    selfLinked.find "p/test" = .ok (["p"], .dir [("test", .link ".")]) := by
  refine FileSystem.find_eq_ok_iff.mpr ⟨by decide, ?_, rfl⟩
  -- the link stops the first pass, and the second goes on from the directory it is in
  have hlink : selfLinked.advance [] ["p", "test"] = .ok (.link ["p"] "." []) := rfl
  calc selfLinked.resolveFrom FileSystem.linkLimit [] ["p", "test"]
      = selfLinked.resolveFrom 39 ["p"] ["."] := FileSystem.resolveFrom_of_link hlink
    _ = .ok ["p"] := FileSystem.resolveFrom_of_arrived rfl

theorem eq_loop_of_mem_walk_selfLinked :
    selfLinked.top.isSound ∧ ({} : Settings).ignores "test" ∧
      selfLinked.find (pathAlong "p" ["test"]) = .ok (["p"], .dir [("test", .link ".")]) ∧
      ∀ item ∈ walk selfLinked {} "p", AtOrBelow item.path (pathAlong "p" ["test"]) →
        item = .fault (.loop "p/test" "p") := by
  have hsound : selfLinked.top.isSound := by decide
  have hpath : pathAlong "p" ["test"] = "p/test" := by decide
  have hdir : selfLinked.find (pathAlong "p" ["test"]) =
      .ok (["p"], .dir [("test", .link ".")]) := hpath ▸ find_selfLinked_test
  refine ⟨hsound, by decide, hdir, fun item hitem hbelow ↦ ?_⟩
  obtain ⟨⟨k, -, hloop, -⟩ | ⟨hbarred, -⟩, -⟩ := eq_loop_of_mem_walk_ignored selfLinked {} "p" []
    "test" hsound (by decide) (by decide) hdir (.inl ⟨_, rfl⟩) item hitem hbelow
  · rw [hloop, List.take_nil, List.nil_append, hpath]
    rfl
  · cases hbarred

/-- The link leads to the directory that is being listed, and is reported although its name is
ignored. -/
theorem loop_mem_walk_selfLinked :
    ({} : Settings).ignores "test" ∧
      selfLinked.find "p/test" = .ok (["p"], .dir [("test", .link ".")]) ∧
      WalkItem.fault (.loop "p/test" "p") ∈ walk selfLinked {} "p" ∧
      AtOrBelow (WalkItem.fault (.loop "p/test" "p")).path "p/test" := by
  have hpath : joinPath "p" "test" = "p/test" := by decide
  refine ⟨by decide, find_selfLinked_test, ?_, .inl rfl⟩
  rw [walk, find_selfLinked]
  dsimp only
  rw [walkBelow_eq, List.mem_flatMap]
  refine ⟨("test", .link "."), by simp [sortEntries], ?_⟩
  rw [walkEntry, hpath, find_selfLinked_test]
  decide

end CallSites
