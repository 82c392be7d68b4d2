import Mathlib.Data.List.Basic
import CallSites.FileTree.Walk
import CallSites.Proofs.Paths

/-!
# Where a walk comes by

A walk goes down from its root, name by name, and everything that it comes by has a path along the
names on its way. What it knows of a directory is where it found it, so the link to the path has to
be carried along: `Standing` says that the path leads to the directory being listed, that none of
the names on the way is ignored, and that the directories above are found at beginnings of the path.
Going one name further keeps this, through a directory and through a link alike.

The snapshot is taken to be sound: a directory has each name once, and only texts that can be names.
Otherwise a path would not tell where the walk has been.
-/

namespace CallSites

/-! ## Sound snapshots -/

mutual

/-- Whether each directory of a tree has distinct names, all of which can be names. -/
def FileTree.isSound : FileTree → Bool
  | .dir entries => areSound entries
  | _ => true

/-- Whether entries have distinct names that can be names, and sound trees under them. -/
def FileTree.areSound : List (String × FileTree) → Bool
  | [] => true
  | (name, t) :: entries =>
    isEntryName name && !entries.any (·.1 == name) && isSound t && areSound entries

end

namespace FileTree

/-- What stands under a name of sound entries is sound, and is what a look-up of the name finds. -/
theorem of_mem_areSound {entries : List (String × FileTree)} {name : String} {t : FileTree}
    (h : areSound entries) (hmem : (name, t) ∈ entries) :
    isEntryName name ∧ t.isSound ∧ entries.lookup name = some t := by
  induction entries with
  | nil => exact absurd hmem List.not_mem_nil
  | cons e entries ih =>
    obtain ⟨n, u⟩ := e
    simp only [areSound, Bool.and_eq_true, Bool.not_eq_true', List.any_eq_false] at h
    obtain ⟨⟨⟨hn, hnew⟩, hu⟩, hentries⟩ := h
    rcases List.mem_cons.mp hmem with heq | hmem
    · cases heq
      exact ⟨hn, hu, List.lookup_cons_self⟩
    · obtain ⟨hname, ht, hlookup⟩ := ih hentries hmem
      refine ⟨hname, ht, ?_⟩
      rw [List.lookup_cons, hlookup]
      have hne : (name == n) = false := by
        have := hnew _ hmem
        simpa using this
      rw [hne]

theorem isSound_of_at? {t u : FileTree} {spot : Spot} (h : t.isSound) (hat : t.at? spot = some u) :
    u.isSound := by
  induction spot generalizing t with
  | nil =>
    cases hat
    exact h
  | cons name spot ih =>
    cases t with
    | dir entries =>
      rw [at?] at hat
      split at hat
      · rename_i child hlookup
        rw [isSound] at h
        exact ih (of_mem_areSound h (mem_of_lookup hlookup)).2.1 hat
      · cases hat
    | _ => cases hat

end FileTree

/-! ## One entry of a listing -/

variable {fs : FileSystem} {settings : Settings} {above : List Listing} {path root : String}
  {spot : Spot} {entries : List (String × FileTree)} {item : WalkItem}

/-- The items at one entry of a directory that is being listed. -/
def walkEntry (fs : FileSystem) (settings : Settings) (above : List Listing) (path : String)
    (spot : Spot) (name : String) : FileTree → List WalkItem
  | .dir inner =>
    if settings.ignores name then []
    else walkBelow fs settings (⟨spot ++ [name], joinPath path name⟩ :: above) (joinPath path name)
      (spot ++ [name]) inner
  | .link _ =>
    match fs.find (joinPath path name) with
    | .error e => [.fault (.io (joinPath path name) e)]
    | .ok (there, .dir inner) =>
      match above.find? (·.spot == there) with
      | some listing => [.fault (.loop (joinPath path name) listing.path)]
      | none =>
        if settings.ignores name then []
        else walkBelow fs settings (⟨there, joinPath path name⟩ :: above) (joinPath path name)
          there inner
    | .ok (_, .barred) => [.fault (.unopened (joinPath path name) .permissionDenied)]
    | .ok (_, other) => walkFile settings (joinPath path name) name other
  | .barred => walkBarred settings (joinPath path name) name
  | other => walkFile settings (joinPath path name) name other

/-- A directory is listed entry by entry. -/
theorem walkBelow_eq (fs : FileSystem) (settings : Settings) (above : List Listing) (path : String)
    (spot : Spot) (entries : List (String × FileTree)) :
    walkBelow fs settings above path spot entries =
      (sortEntries entries).flatMap fun e ↦ walkEntry fs settings above path spot e.1 e.2 := by
  rw [walkBelow]
  conv_rhs => rw [← List.attach_map_subtype_val (sortEntries entries), List.flatMap_map]
  apply List.flatMap_congr
  rintro ⟨⟨name, t⟩, _⟩ _
  cases t with
  | link link =>
    dsimp only [walkEntry]
    split
    · rename_i hfind
      rw [hfind]
    · rename_i hfind
      rw [hfind]
      dsimp only
      split
      · rename_i hloop
        rw [hloop]
      · rename_i hloop
        rw [hloop]
    · rename_i hfind
      rw [hfind]
    · rename_i there other hdir hbarred hfind
      rw [hfind]
      cases other with
      | dir inner => exact (hdir inner rfl).elim
      | barred => exact (hbarred rfl).elim
      | _ => rfl
  | _ => rfl

/-- A regular file, whether or not its contents can be read. -/
def FileTree.IsRegular (t : FileTree) : Prop :=
  (∃ contents, t = .file contents) ∨ t = .faulty

/-- A directory, whether or not it may be listed. -/
def FileTree.IsDirectory (t : FileTree) : Prop :=
  (∃ entries, t = .dir entries) ∨ t = .barred

theorem FileTree.IsRegular.not_isDirectory {t : FileTree} (h : t.IsRegular) : ¬t.IsDirectory := by
  rintro (⟨entries, rfl⟩ | rfl)
  · rcases h with ⟨contents, h⟩ | h <;> cases h
  · rcases h with ⟨contents, h⟩ | h <;> cases h

theorem FileTree.IsRegular.ne_link {t : FileTree} (h : t.IsRegular) (target : String) :
    t ≠ .link target := by
  rintro rfl
  rcases h with ⟨contents, h⟩ | h <;> cases h

/-- The ways in which an item comes up at one entry. -/
inductive Comes (fs : FileSystem) (settings : Settings) (above : List Listing) (path : String)
    (spot : Spot) (name : String) : FileTree → WalkItem → Prop
  | source {t : FileTree} (hfile : t.IsRegular) (hreads : settings.reads name) :
    Comes fs settings above path spot name t (.source (joinPath path name))
  | linkedSource {link : String} {there : Spot} {t : FileTree}
    (hfind : fs.find (joinPath path name) = .ok (there, t)) (hfile : t.IsRegular)
    (hreads : settings.reads name) :
    Comes fs settings above path spot name (.link link) (.source (joinPath path name))
  | unresolved {link : String} {e : OsError} (hfind : fs.find (joinPath path name) = .error e) :
    Comes fs settings above path spot name (.link link) (.fault (.io (joinPath path name) e))
  | loop {link : String} {there : Spot} {inner : List (String × FileTree)} {listing : Listing}
    (hfind : fs.find (joinPath path name) = .ok (there, .dir inner))
    (habove : above.find? (·.spot == there) = some listing) :
    Comes fs settings above path spot name (.link link)
      (.fault (.loop (joinPath path name) listing.path))
  | barred (hname : settings.ignores name = false) :
    Comes fs settings above path spot name .barred
      (.fault (.io (joinPath path name) .permissionDenied))
  | unopened {link : String} {there : Spot}
    (hfind : fs.find (joinPath path name) = .ok (there, .barred)) :
    Comes fs settings above path spot name (.link link)
      (.fault (.unopened (joinPath path name) .permissionDenied))
  | below {inner : List (String × FileTree)} {item : WalkItem}
    (hname : settings.ignores name = false)
    (hitem : item ∈ walkBelow fs settings (⟨spot ++ [name], joinPath path name⟩ :: above)
      (joinPath path name) (spot ++ [name]) inner) :
    Comes fs settings above path spot name (.dir inner) item
  | linkedBelow {link : String} {there : Spot} {inner : List (String × FileTree)} {item : WalkItem}
    (hfind : fs.find (joinPath path name) = .ok (there, .dir inner))
    (habove : above.find? (·.spot == there) = none) (hname : settings.ignores name = false)
    (hitem : item ∈ walkBelow fs settings (⟨there, joinPath path name⟩ :: above)
      (joinPath path name) there inner) :
    Comes fs settings above path spot name (.link link) item

theorem mem_walkBarred {name : String} :
    item ∈ walkBarred settings path name ↔
      item = .fault (.io path .permissionDenied) ∧ settings.ignores name = false := by
  rw [walkBarred]
  split <;> simp_all

theorem mem_walkFile {name : String} {t : FileTree} :
    item ∈ walkFile settings path name t ↔
      item = .source path ∧ t.IsRegular ∧ settings.reads name := by
  cases t <;> simp [walkFile, FileTree.IsRegular, and_comm]

/-- Whatever comes up in a directory comes up at one of its entries. -/
theorem exists_comes_of_mem_walkBelow (h : item ∈ walkBelow fs settings above path spot entries) :
    ∃ name t, (name, t) ∈ entries ∧ Comes fs settings above path spot name t item := by
  rw [walkBelow_eq, List.mem_flatMap] at h
  obtain ⟨⟨name, t⟩, hmem, hitem⟩ := h
  refine ⟨name, t, List.mem_mergeSort.mp hmem, ?_⟩
  cases t with
  | dir inner =>
    dsimp only [walkEntry] at hitem
    split at hitem
    · exact absurd hitem List.not_mem_nil
    · rename_i hname
      exact .below (Bool.eq_false_iff.mpr hname) hitem
  | link link =>
    dsimp only [walkEntry] at hitem
    split at hitem
    · rename_i e hfind
      rw [List.mem_singleton.mp hitem]
      exact .unresolved hfind
    · rename_i there inner hfind
      split at hitem
      · rename_i listing habove
        rw [List.mem_singleton.mp hitem]
        exact .loop hfind habove
      · rename_i habove
        split at hitem
        · exact absurd hitem List.not_mem_nil
        · rename_i hname
          exact .linkedBelow hfind habove (Bool.eq_false_iff.mpr hname) hitem
    · rename_i there hfind
      rw [List.mem_singleton.mp hitem]
      exact .unopened hfind
    · rename_i there t hdir hbarred hfind
      obtain ⟨rfl, hfile, hreads⟩ := mem_walkFile.mp hitem
      exact .linkedSource hfind hfile hreads
  | barred =>
    obtain ⟨rfl, hname⟩ := mem_walkBarred.mp hitem
    exact .barred hname
  | _ =>
    dsimp only [walkEntry] at hitem
    obtain ⟨rfl, hfile, hreads⟩ := mem_walkFile.mp hitem
    exact .source hfile hreads

/-! ## The way down -/

/-- A walk from `root` lists the directory at `spot`, which it has reached along `names`; `above`
are the directories on its way, this one included. -/
structure Standing (fs : FileSystem) (settings : Settings) (root : String) (names : List String)
    (above : List Listing) (spot : Spot) (entries : List (String × FileTree)) : Prop where
  found : fs.find (pathAlong root names) = .ok (spot, .dir entries)
  proper : ∀ n ∈ names, isEntryName n
  kept : ∀ n ∈ names, settings.ignores n = false
  /-- The directories above are found along the beginnings of the way. -/
  onWay : ∀ l ∈ above, ∃ k ≤ names.length, l.path = pathAlong root (names.take k) ∧
    ∃ inner, fs.find l.path = .ok (l.spot, .dir inner)

/-- One name further, to a directory that is found there. -/
theorem Standing.enter {names : List String}
    (h : Standing fs settings root names above spot entries)
    {name : String} (hproper : isEntryName name) (hkept : settings.ignores name = false)
    {there : Spot} {inner : List (String × FileTree)}
    (hfound : fs.find (joinPath (pathAlong root names) name) = .ok (there, .dir inner)) :
    Standing fs settings root (names ++ [name])
      (⟨there, joinPath (pathAlong root names) name⟩ :: above) there inner := by
  rw [← pathAlong_concat] at hfound ⊢
  refine ⟨hfound, ?_, ?_, ?_⟩
  · exact List.forall_mem_append.mpr ⟨h.proper, List.forall_mem_singleton.mpr hproper⟩
  · exact List.forall_mem_append.mpr ⟨h.kept, List.forall_mem_singleton.mpr hkept⟩
  · intro l hl
    rcases List.mem_cons.mp hl with rfl | hl
    · refine ⟨(names ++ [name]).length, Nat.le_refl _, ?_, inner, hfound⟩
      rw [List.take_length]
    · obtain ⟨k, hk, hpath, hinner⟩ := h.onWay l hl
      refine ⟨k, Nat.le_trans hk (by simp), ?_, hinner⟩
      rw [List.take_append_of_le_length hk]
      exact hpath

/-- An item of a walk whose path is the one along `names`, and what is found there. -/
inductive FoundAlong (fs : FileSystem) (settings : Settings) (root : String)
    (names : List String) : WalkItem → Prop
  | source {spot : Spot} {t : FileTree} (hfind : fs.find (pathAlong root names) = .ok (spot, t))
    (hfile : t.IsRegular) : FoundAlong fs settings root names (.source (pathAlong root names))
  | unresolved {e : OsError} (hfind : fs.find (pathAlong root names) = .error e) :
    FoundAlong fs settings root names (.fault (.io (pathAlong root names) e))
  | barred {spot : Spot} (hfind : fs.find (pathAlong root names) = .ok (spot, .barred))
    (hkept : ∀ n ∈ names, settings.ignores n = false) :
    FoundAlong fs settings root names (.fault (.io (pathAlong root names) .permissionDenied))
  /-- The last name, if there is one, is a link to a directory that cannot be opened. -/
  | unopened {spot : Spot} (hfind : fs.find (pathAlong root names) = .ok (spot, .barred))
    (hlink : ∀ way name, names = way ++ [name] → ∃ parent entries link,
      fs.find (pathAlong root way) = .ok (parent, .dir entries) ∧ (name, .link link) ∈ entries) :
    FoundAlong fs settings root names (.fault (.unopened (pathAlong root names) .permissionDenied))
  /-- The last name is a link, and it leads to a directory on the way there. -/
  | loop {way : List String} {name link : String} {parent spot : Spot}
    {entries inner inner' : List (String × FileTree)} {k : Nat} (hnames : names = way ++ [name])
    (hparent : fs.find (pathAlong root way) = .ok (parent, .dir entries))
    (hlink : (name, .link link) ∈ entries) (hk : k < names.length)
    (hfind : fs.find (pathAlong root names) = .ok (spot, .dir inner))
    (hancestor : fs.find (pathAlong root (names.take k)) = .ok (spot, .dir inner')) :
    FoundAlong fs settings root names
      (.fault (.loop (pathAlong root names) (pathAlong root (names.take k))))

/-- **What comes up below a directory** comes up along further names, none of which is ignored but
perhaps the last. -/
theorem Standing.exists_foundAlong (hsound : fs.top.isSound) {names : List String}
    (h : Standing fs settings root names above spot entries)
    (hitem : item ∈ walkBelow fs settings above (pathAlong root names) spot entries) :
    ∃ way name, (∀ n ∈ way ++ [name], isEntryName n) ∧ (∀ n ∈ way, settings.ignores n = false) ∧
      FoundAlong fs settings root (way ++ [name]) item := by
  generalize hpath : pathAlong root names = path at hitem
  induction above, path, spot, entries using walkBelow.induct fs generalizing names with
  | case1 above path spot entries ihdir ihlink =>
    subst hpath
    obtain ⟨name, t, hmem, hcomes⟩ := exists_comes_of_mem_walkBelow hitem
    have hentries := FileTree.isSound_of_at? hsound (FileSystem.at?_of_find h.found)
    rw [FileTree.isSound] at hentries
    obtain ⟨hproper, -, hlookup⟩ := FileTree.of_mem_areSound hentries hmem
    have hpropers : ∀ n ∈ names ++ [name], isEntryName n :=
      List.forall_mem_append.mpr ⟨h.proper, List.forall_mem_singleton.mpr hproper⟩
    cases hcomes with
    | source hfile hreads =>
      have hfind := FileSystem.find_joinPath h.found hproper hlookup hfile.ne_link
      rw [← pathAlong_concat] at hfind ⊢
      exact ⟨names, name, hpropers, h.kept, .source hfind hfile⟩
    | linkedSource hfind hfile hreads =>
      rw [← pathAlong_concat] at hfind ⊢
      exact ⟨names, name, hpropers, h.kept, .source hfind hfile⟩
    | unresolved hfind =>
      rw [← pathAlong_concat] at hfind ⊢
      exact ⟨names, name, hpropers, h.kept, .unresolved hfind⟩
    | @loop link there inner listing hfind habove =>
      obtain ⟨k, hk, hpath, inner', hancestor⟩ := h.onWay listing (List.mem_of_find?_eq_some habove)
      have hspot : listing.spot = there := by
        have := List.find?_some habove
        exact eq_of_beq this
      have htake : (names ++ [name]).take k = names.take k := List.take_append_of_le_length hk
      rw [hspot, hpath, ← htake] at hancestor
      rw [hpath, ← htake]
      rw [← pathAlong_concat] at hfind ⊢
      exact ⟨names, name, hpropers, h.kept, .loop rfl h.found hmem (by simp; omega) hfind hancestor⟩
    | barred hkept =>
      have hfind := FileSystem.find_joinPath h.found hproper hlookup (by simp)
      rw [← pathAlong_concat] at hfind ⊢
      refine ⟨names, name, hpropers, h.kept, .barred hfind ?_⟩
      exact List.forall_mem_append.mpr ⟨h.kept, List.forall_mem_singleton.mpr hkept⟩
    | @unopened link there hfind =>
      rw [← pathAlong_concat] at hfind ⊢
      refine ⟨names, name, hpropers, h.kept, .unopened hfind fun way last heq ↦ ?_⟩
      obtain ⟨rfl, rfl⟩ : names = way ∧ name = last := by simpa using heq
      exact ⟨spot, entries, link, h.found, hmem⟩
    | below hkept hitem =>
      have hfind := FileSystem.find_joinPath h.found hproper hlookup (by simp)
      exact ihdir name _ (List.mem_mergeSort.mpr hmem) (h.enter hproper hkept hfind)
        (pathAlong_concat ..) hitem
    | linkedBelow hfind habove hkept hitem =>
      exact ihlink name _ _ hfind habove (h.enter hproper hkept hfind) (pathAlong_concat ..) hitem

/-- **What a walk comes by** is found along names below the root, none of which is ignored but
perhaps the last. -/
theorem exists_foundAlong_of_mem_walk (hsound : fs.top.isSound)
    (hitem : item ∈ walk fs settings root) :
    ∃ names, (∀ n ∈ names, isEntryName n) ∧ (∀ n ∈ names.dropLast, settings.ignores n = false) ∧
      FoundAlong fs settings root names item := by
  rw [walk] at hitem
  split at hitem
  · rename_i e hfind
    rw [List.mem_singleton.mp hitem]
    exact ⟨[], nofun, nofun, .unresolved hfind⟩
  · rename_i spot entries hfind
    have hstanding : Standing fs settings root [] [⟨spot, root⟩] spot entries := by
      refine ⟨hfind, nofun, nofun, ?_⟩
      intro l hl
      rw [List.mem_singleton.mp hl]
      exact ⟨0, Nat.le_refl 0, rfl, entries, hfind⟩
    obtain ⟨way, name, hproper, hkept, hfound⟩ := hstanding.exists_foundAlong hsound hitem
    exact ⟨way ++ [name], hproper, by rwa [List.dropLast_concat], hfound⟩
  · rename_i spot hfind
    rw [List.mem_singleton.mp hitem]
    split
    · exact ⟨[], nofun, nofun, .unopened hfind (by simp)⟩
    · exact ⟨[], nofun, nofun, .barred hfind nofun⟩
  · rename_i spot t hdir hbarred hfind
    obtain ⟨rfl, hfile, -⟩ := mem_walkFile.mp hitem
    exact ⟨[], nofun, nofun, .source hfind hfile⟩

end CallSites
