import CallSites.Proofs.TreeScan
import CallSites.Proofs.Walk

/-!
# How a scan ends

A scan of a tree ends in one of two ways: with the findings of all its source files, or with the
error of the first item of its walk that cannot be scanned. Which way it ends, and with which error,
is settled by the walk and by which files can be read. What stands in the files has no part in it.

To say so, the files of a tree are emptied. An emptied tree has the same directories and links, so
paths resolve alike, the walk is the same, and the same files refuse to be read.
-/

namespace CallSites

/-! ## Trees without contents -/

mutual

/-- The tree with nothing in its files. -/
def FileTree.emptied : FileTree → FileTree
  | .file _ => .file []
  | .dir entries => .dir (emptiedIn entries)
  | .faulty => .faulty
  | .device => .device
  | .link target => .link target
  | .barred => .barred

/-- The entries with nothing in their files. -/
def FileTree.emptiedIn : List (String × FileTree) → List (String × FileTree)
  | [] => []
  | (name, t) :: entries => (name, emptied t) :: emptiedIn entries

end

/-- The snapshot with nothing in its files. -/
def FileSystem.emptied (fs : FileSystem) : FileSystem :=
  { fs with top := fs.top.emptied }

namespace FileTree

theorem emptiedIn_eq_map (entries : List (String × FileTree)) :
    emptiedIn entries = entries.map fun e ↦ (e.1, e.2.emptied) := by
  induction entries with
  | nil => rfl
  | cons e entries ih => rw [emptiedIn, ih, List.map_cons]

theorem lookup_emptiedIn (entries : List (String × FileTree)) (name : String) :
    (emptiedIn entries).lookup name = (entries.lookup name).map emptied := by
  induction entries with
  | nil => rfl
  | cons e entries ih =>
    rw [emptiedIn, List.lookup_cons, List.lookup_cons, ih]
    split <;> rfl

theorem at?_emptied (t : FileTree) (spot : Spot) :
    t.emptied.at? spot = (t.at? spot).map emptied := by
  induction spot generalizing t with
  | nil => rfl
  | cons name spot ih =>
    cases t with
    | dir entries =>
      rw [emptied, at?, at?, lookup_emptiedIn]
      cases entries.lookup name with
      | none => rfl
      | some child => exact ih child
    | _ => rfl

theorem sortEntries_emptiedIn (entries : List (String × FileTree)) :
    sortEntries (emptiedIn entries) = (sortEntries entries).map fun e ↦ (e.1, e.2.emptied) := by
  rw [emptiedIn_eq_map, sortEntries, sortEntries, List.map_mergeSort]
  exact fun _ _ _ _ ↦ rfl

end FileTree

/-! ## Paths and walks do not look into files -/

namespace FileSystem

variable (fs : FileSystem)

theorem advance_emptied (spot : Spot) (names : List String) :
    fs.emptied.advance spot names = fs.advance spot names := by
  induction names generalizing spot with
  | nil => rfl
  | cons name names ih =>
    rw [advance, advance, emptied, FileTree.at?_emptied]
    cases hat : fs.top.at? spot with
    | none => rfl
    | some t =>
      cases t with
      | dir entries =>
        simp only [Option.map_some, FileTree.emptied, FileTree.lookup_emptiedIn]
        rw [← emptied, ih, ih]
        cases hlookup : entries.lookup name with
        | none => rfl
        | some child =>
          cases child with
          | link target => rfl
          | _ =>
            simp only [Option.map_some, FileTree.emptied]
            rw [ih]
      | barred =>
        simp only [Option.map_some, FileTree.emptied]
        rw [← emptied, ih]
      | _ => rfl

theorem resolveFrom_emptied (links : Nat) (spot : Spot) (names : List String) :
    fs.emptied.resolveFrom links spot names = fs.resolveFrom links spot names := by
  induction links generalizing spot names with
  | zero =>
    rw [resolveFrom, resolveFrom, advance_emptied]
  | succ links ih =>
    rw [resolveFrom, resolveFrom, advance_emptied]
    cases fs.advance spot names with
    | error e => rfl
    | ok stop =>
      cases stop with
      | arrived there => rfl
      | link there target rest =>
        simp only [bind, Except.bind, ih]

/-- **A path leads to the same place**, and to what is left of what stood there. -/
theorem find_emptied (path : String) :
    fs.emptied.find path = (fs.find path).map fun (spot, t) ↦ (spot, t.emptied) := by
  have hresolve : fs.emptied.resolve path = fs.resolve path := by
    rw [resolve, resolve, resolveFrom_emptied]
    rfl
  rw [find, find, hresolve]
  cases fs.resolve path with
  | error e => rfl
  | ok spot =>
    simp only [bind, Except.bind, emptied, FileTree.at?_emptied]
    cases fs.top.at? spot <;> rfl

theorem isLink_emptied (path : String) : fs.emptied.isLink path = fs.isLink path := by
  have hlink : ∀ t : FileTree, t.emptied.isLink = t.isLink := by
    intro t
    cases t <;> rfl
  have hhere : fs.emptied.here = fs.here := rfl
  simp only [isLink, resolveFrom_emptied, hhere]
  split
  · rw [emptied, FileTree.at?_emptied, Option.any_map]
    simp only [hlink]
  · rfl

theorem read_emptied (path : String) : fs.emptied.read path = (fs.read path).map fun _ ↦ [] := by
  rw [read, read, find_emptied]
  cases fs.find path with
  | error e => rfl
  | ok found =>
    obtain ⟨spot, t⟩ := found
    cases t <;> rfl

end FileSystem

theorem walkBelow_emptied (fs : FileSystem) (settings : Settings) (above : List Listing)
    (path : String) (spot : Spot) (entries : List (String × FileTree)) :
    walkBelow fs.emptied settings above path spot (FileTree.emptiedIn entries) =
      walkBelow fs settings above path spot entries := by
  induction above, path, spot, entries using walkBelow.induct fs with
  | case1 above path spot entries ihdir ihlink =>
    rw [walkBelow_eq, walkBelow_eq, FileTree.sortEntries_emptiedIn, List.flatMap_map]
    apply List.flatMap_congr
    rintro ⟨name, t⟩ hmem
    cases t with
    | dir inner =>
      simp only [FileTree.emptied, walkEntry]
      rw [ihdir name inner hmem]
    | link target =>
      simp only [FileTree.emptied, walkEntry, FileSystem.find_emptied]
      cases hfind : fs.find (joinPath path name) with
      | error e => rfl
      | ok found =>
        obtain ⟨there, t⟩ := found
        cases t with
        | dir inner =>
          simp only [Except.map, FileTree.emptied]
          cases hloop : above.find? (·.spot == there) with
          | some listing => rfl
          | none =>
            dsimp only
            rw [ihlink name there inner hfind hloop]
        | _ => rfl
    | _ => rfl

theorem walk_emptied (fs : FileSystem) (settings : Settings) (root : String) :
    walk fs.emptied settings root = walk fs settings root := by
  rw [walk, walk, FileSystem.find_emptied, FileSystem.isLink_emptied]
  cases fs.find root with
  | error e => rfl
  | ok found =>
    obtain ⟨spot, t⟩ := found
    cases t with
    | dir entries => exact walkBelow_emptied fs settings [⟨spot, root⟩] root spot entries
    | _ => rfl

/-! ## The first item that cannot be scanned -/

section Outcome

variable {fs : FileSystem} {settings : Settings} {root : String} {e : ScanError}

theorem exists_readsAs_emptied_iff {item : WalkItem} :
    (∃ f, item.ReadsAs fs.emptied f) ↔ ∃ f, item.ReadsAs fs f := by
  cases item with
  | fault f => simp [WalkItem.ReadsAs]
  | source path =>
    cases hread : fs.read path <;>
      simp [WalkItem.ReadsAs, FileSystem.read_emptied, hread, Except.map]

theorem stops_emptied_iff {item : WalkItem} :
    item.Stops fs.emptied root e ↔ item.Stops fs root e := by
  have hread : ∀ path error, fs.emptied.read path = .error error ↔ fs.read path = .error error := by
    intro path error
    rw [FileSystem.read_emptied]
    cases fs.read path <;> simp [Except.map]
  constructor
  · rintro (f | h)
    · exact .fault f
    · exact .unreadable ((hread _ _).mp h)
  · rintro (f | h)
    · exact .fault f
    · exact .unreadable ((hread _ _).mpr h)

theorem firstStop_emptied_iff {items : List WalkItem} :
    FirstStop fs.emptied root items e ↔ FirstStop fs root items e := by
  simp only [FirstStop, exists_readsAs_emptied_iff, stops_emptied_iff]

theorem scanTree_of_readsAs {files : List (String × List Char)}
    (h : List.Forall₂ (WalkItem.ReadsAs fs) (walk fs settings root) files) :
    scanTree fs settings root =
      .ok (.ofFiles (files.map fun f ↦ .ofText settings.keywords f.1 f.2)) := by
  rw [scanTree, scanFiles_of_readsAs h]

/-- **A scan fails with the first item that fails.** -/
theorem scanTree_eq_error_iff :
    scanTree fs settings root = .error e ↔ FirstStop fs root (walk fs settings root) e := by
  have herror : ∀ e, FirstStop fs root (walk fs settings root) e →
      scanTree fs settings root = .error e := by
    intro e h
    obtain ⟨files, hfiles⟩ := exists_scanFiles_of_firstStop h
    rw [scanTree, hfiles]
  refine ⟨fun h ↦ ?_, herror e⟩
  rcases readsAs_or_firstStop fs root (walk fs settings root) with ⟨files, hfiles⟩ | ⟨e', hstop⟩
  · rw [scanTree_of_readsAs hfiles] at h
    cases h
  · have heq := (herror e' hstop).symm.trans h
    cases heq
    exact hstop

theorem exists_readsAs_of_mem {items : List WalkItem} {files : List (String × List Char)}
    (h : List.Forall₂ (WalkItem.ReadsAs fs) items files) {item : WalkItem} (hitem : item ∈ items) :
    ∃ f, item.ReadsAs fs f := by
  induction h with
  | nil => exact absurd hitem List.not_mem_nil
  | @cons i f items files hf _ ih =>
    rcases List.mem_cons.mp hitem with rfl | hitem
    · exact ⟨f, hf⟩
    · exact ih hitem

theorem FirstStop.exists_not_readsAs {items : List WalkItem} (h : FirstStop fs root items e) :
    ∃ i ∈ items, ¬∃ f, i.ReadsAs fs f := by
  obtain ⟨before, item, after, rfl, -, hstop⟩ := h
  refine ⟨item, List.mem_append_right _ List.mem_cons_self, ?_⟩
  rintro ⟨f, hsource, bytes, hread, -⟩
  cases hstop with
  | fault fault => cases hsource
  | unreadable herror =>
    cases hsource
    rw [hread] at herror
    cases herror

end Outcome

/-- **A scan is complete or ends at its first failure.** If every item of the walk is a source file
that can be read, the findings are those of the decoded texts in the order of the walk, and as many
files are counted as there are items. If not, the scan ends with an error, and the errors it ends
with are those of the first item that is a fault or cannot be read, whatever comes behind it.
Another snapshot that differs in the contents of files only ends with the same error. -/
theorem scanTree_complete_or_first_failure (fs : FileSystem) (settings : Settings)
    (root : String) :
    ((∀ item ∈ walk fs settings root, ∃ f, item.ReadsAs fs f) →
      ∃ files, List.Forall₂ (WalkItem.ReadsAs fs) (walk fs settings root) files ∧
        ∃ findings, scanTree fs settings root = .ok findings ∧
          findings = .ofFiles (files.map fun f ↦ .ofText settings.keywords f.1 f.2) ∧
          findings.files = (walk fs settings root).length) ∧
      ((∃ item ∈ walk fs settings root, ¬∃ f, item.ReadsAs fs f) →
        ∃ e, scanTree fs settings root = .error e) ∧
      (∀ e, scanTree fs settings root = .error e ↔ FirstStop fs root (walk fs settings root) e) ∧
      ∀ other : FileSystem, other.emptied = fs.emptied →
        ∀ e, scanTree other settings root = .error e ↔ scanTree fs settings root = .error e := by
  refine ⟨fun hreads ↦ ?_, ?_, fun e ↦ scanTree_eq_error_iff, ?_⟩
  · rcases readsAs_or_firstStop fs root (walk fs settings root) with ⟨files, hfiles⟩ | ⟨e, hstop⟩
    · refine ⟨files, hfiles, _, scanTree_of_readsAs hfiles, rfl, ?_⟩
      rw [(Findings.sums_ofFiles settings.keywords files).files, hfiles.length_eq]
    · obtain ⟨item, hitem, hfails⟩ := hstop.exists_not_readsAs
      exact absurd (hreads item hitem) hfails
  · rintro ⟨item, hitem, hfails⟩
    rcases readsAs_or_firstStop fs root (walk fs settings root) with ⟨files, hfiles⟩ | ⟨e, hstop⟩
    · exact absurd (exists_readsAs_of_mem hfiles hitem) hfails
    · exact ⟨e, scanTree_eq_error_iff.mpr hstop⟩
  · intro other hother e
    rw [scanTree_eq_error_iff, scanTree_eq_error_iff, ← firstStop_emptied_iff, ← walk_emptied other,
      hother, walk_emptied, firstStop_emptied_iff]

end CallSites
