import CallSites.Proofs.LinkFree

/-!
# Settings that come to the same

Directories to pass by are added one after the other, each unless it is there already. What this
makes is an ordered union: the old names stay in front as they are, and behind them stand the new
ones by first occurrence. That names can be added in one go or in several, and a second time without
effect, is read off from this form.

A walk never looks at the lists themselves. It asks whether a directory of some name is passed by
and whether a file of some name is read, and both answers depend on the members of the lists only;
an extension counts without its leading dots. So settings that differ in order, repetition and dots
lead the same walk through every snapshot, down to what it stumbles over.
-/

namespace CallSites

namespace Settings

/-! ## The ordered union -/

/-- **Added names stand behind the old ones, each new one where it occurs first.** -/
theorem foldl_add_eq (dirs names : List String) :
    names.foldl (fun dirs n ↦ if dirs.contains n then dirs else dirs ++ [n]) dirs =
      dirs ++ (names.filter fun n ↦ decide (n ∉ dirs)).eraseDups := by
  induction names generalizing dirs with
  | nil => exact (List.append_nil dirs).symm
  | cons n names ih =>
    rw [List.foldl_cons]
    by_cases hn : n ∈ dirs
    · rw [if_pos (List.contains_iff_mem.mpr hn), ih, List.filter_cons_of_neg (by simpa using hn)]
    · -- from here on `n` is an old name, which is what `eraseDups` does with the rest
      have hrest : (names.filter fun m ↦ decide (m ∉ dirs ++ [n])) =
          (names.filter fun m ↦ decide (m ∉ dirs)).filter fun m ↦ !m == n := by
        rw [List.filter_filter]
        apply List.filter_congr
        intro m _
        by_cases hm : m = n
        · simp [hm]
        · simp [hm]
      rw [if_neg (by rwa [List.contains_iff_mem]), ih, hrest,
        List.filter_cons_of_pos (by simpa using hn), List.eraseDups_cons, List.append_assoc,
        List.singleton_append]

theorem ignoring_eq (s : Settings) (names : List String) :
    s.ignoring names = { s with
      ignoredDirs :=
        s.ignoredDirs ++ (names.filter fun n ↦ decide (n ∉ s.ignoredDirs)).eraseDups } := by
  rw [ignoring, foldl_add_eq]

theorem mem_ignoredDirs_ignoring {s : Settings} {names : List String} {n : String} :
    n ∈ (s.ignoring names).ignoredDirs ↔ n ∈ s.ignoredDirs ∨ n ∈ names := by
  rw [ignoring_eq, List.mem_append, List.mem_eraseDups, List.mem_filter, decide_eq_true_eq]
  tauto

theorem ignoring_ignoring (s : Settings) (names more : List String) :
    (s.ignoring names).ignoring more = s.ignoring (names ++ more) := by
  rw [ignoring, ignoring, ignoring, List.foldl_append]

/-- Names that are there already change nothing. -/
theorem ignoring_of_subset {s : Settings} {names : List String} (h : names ⊆ s.ignoredDirs) :
    s.ignoring names = s := by
  have hnew : (names.filter fun n ↦ decide (n ∉ s.ignoredDirs)) = [] := by
    rw [List.filter_eq_nil_iff]
    intro n hn
    rw [decide_eq_true_eq]
    exact not_not.mpr (h hn)
  rw [ignoring_eq, hnew, List.eraseDups_nil, List.append_nil]

/-! ## Settings alike to a walk -/

/-- Settings that pass by the same directories and read the same endings, whatever the order and
number in which they list them, and with or without leading dots. -/
structure SameChoice (s t : Settings) : Prop where
  dirs : ∀ n, n ∈ s.ignoredDirs ↔ n ∈ t.ignoredDirs
  endings : ∀ ending,
    ending ∈ s.extensions.map bareExtension ↔ ending ∈ t.extensions.map bareExtension

theorem SameChoice.ignores_eq {s t : Settings} (h : s.SameChoice t) (n : String) :
    s.ignores n = t.ignores n := by
  rw [Bool.eq_iff_iff, ignores_iff, ignores_iff]
  exact h.dirs n

theorem SameChoice.reads_eq {s t : Settings} (h : s.SameChoice t) (n : String) :
    s.reads n = t.reads n := by
  have hends : ∀ u : Settings, u.reads n ↔
      ∃ ending ∈ u.extensions.map bareExtension, '.' :: ending <:+ n.toList := by
    intro u
    rw [reads, List.any_eq_true]
    simp only [List.isSuffixOf_iff_suffix, List.mem_map, exists_exists_and_eq_and]
  rw [Bool.eq_iff_iff, hends, hends]
  exact exists_congr fun ending ↦ and_congr_left' (h.endings ending)

/-- The order and the number in which names are added make no difference. -/
theorem SameChoice.of_ignoring (s : Settings) {names more : List String}
    (h : ∀ n, n ∈ names ↔ n ∈ more) : (s.ignoring names).SameChoice (s.ignoring more) where
  dirs n := by rw [mem_ignoredDirs_ignoring, mem_ignoredDirs_ignoring, h n]
  endings _ := Iff.rfl

end Settings

/-! ## Walks -/

section Walks

variable {s t : Settings}

theorem walkFile_congr (h : s.SameChoice t) (path name : String) (file : FileTree) :
    walkFile s path name file = walkFile t path name file := by
  cases file <;> simp only [walkFile, h.reads_eq]

theorem walkBarred_congr (h : s.SameChoice t) (path name : String) :
    walkBarred s path name = walkBarred t path name := by
  rw [walkBarred, walkBarred, h.ignores_eq]

/-- **Below any directory, alike settings come by the same.** -/
theorem walkBelow_congr (h : s.SameChoice t) (fs : FileSystem) (above : List Listing)
    (path : String) (spot : Spot) (entries : List (String × FileTree)) :
    walkBelow fs s above path spot entries = walkBelow fs t above path spot entries := by
  induction above, path, spot, entries using walkBelow.induct fs with
  | case1 above path spot entries ihdir ihlink =>
    rw [walkBelow_eq, walkBelow_eq]
    apply List.flatMap_congr
    rintro ⟨name, entry⟩ hmem
    cases entry with
    | dir inner => simp only [walkEntry, h.ignores_eq, ihdir name inner hmem]
    | link target =>
      -- a loop and a dead end are reported before the settings are asked
      rcases hfind : fs.find (joinPath path name) with e | ⟨there, found⟩
      · simp only [walkEntry, hfind]
      · cases found with
        | dir inner =>
          rcases hloop : above.find? (·.spot == there) with _ | listing
          · simp only [walkEntry, hfind, hloop, h.ignores_eq, ihlink name there inner hfind hloop]
          · simp only [walkEntry, hfind, hloop]
        | _ => simp only [walkEntry, hfind, walkFile_congr h]
    | barred => exact walkBarred_congr h _ _
    | _ => simp only [walkEntry, walkFile_congr h]

theorem walk_congr (h : s.SameChoice t) (fs : FileSystem) (root : String) :
    walk fs s root = walk fs t root := by
  rw [walk, walk]
  split
  · rfl
  · exact walkBelow_congr h fs _ _ _ _
  · rfl
  · exact walkFile_congr h _ _ _

end Walks

/-- **Adding directories to pass by.** The settings with further names have these behind the names
they had, each new one once and where it occurs first, and are otherwise unchanged; adding names in
two goes is adding them in one, and adding them again changes nothing. Neither the order in which
names are added nor how often matters to a walk of any snapshot: it comes by the same under all
settings with the same directories and the same endings. -/
theorem ignoring_orderedUnion (c : Settings) (a b : List String) (s t : Settings)
    (h : s.SameChoice t) (fs : FileSystem) (root : String) :
    c.ignoring a = { c with
        ignoredDirs :=
          c.ignoredDirs ++ (a.filter fun n ↦ decide (n ∉ c.ignoredDirs)).eraseDups } ∧
      (c.ignoring a).ignoring b = c.ignoring (a ++ b) ∧
      (c.ignoring a).ignoring a = c.ignoring a ∧
      (∀ a' : List String, (∀ n, n ∈ a ↔ n ∈ a') →
        walk fs (c.ignoring a) root = walk fs (c.ignoring a') root) ∧
      walk fs s root = walk fs t root := by
  refine ⟨c.ignoring_eq a, c.ignoring_ignoring a b, ?_, fun a' ha' ↦ ?_, walk_congr h fs root⟩
  · apply Settings.ignoring_of_subset
    intro n hn
    exact Settings.mem_ignoredDirs_ignoring.mpr (.inr hn)
  · exact walk_congr (.of_ignoring c ha') fs root

/-- Two directories and two endings, some of them listed twice. -/
def listedLoosely : Settings where
  ignoredDirs := ["test", "bonus", "test"]
  extensions := ["c", "..h", ".c"]

/-- The same directories and endings in another order, listed once. -/
def listedTightly : Settings where
  ignoredDirs := ["bonus", "test"]
  extensions := [".h", "c"]

theorem ignoring_orderedUnion_listedLoosely :
    listedLoosely.SameChoice listedTightly ∧
      (listedTightly.ignoring ["vendor", "test", "vendor"]).ignoredDirs =
        ["bonus", "test", "vendor"] ∧
      ∀ fs root, walk fs listedLoosely root = walk fs listedTightly root := by
  have hsame : listedLoosely.SameChoice listedTightly := by
    refine ⟨fun n ↦ ?_, fun ending ↦ ?_⟩
    · simp only [listedLoosely, listedTightly, List.mem_cons, List.not_mem_nil, or_false]
      tauto
    · have hloose :
          listedLoosely.extensions.map Settings.bareExtension = [['c'], ['h'], ['c']] := by
        decide
      have htight : listedTightly.extensions.map Settings.bareExtension = [['h'], ['c']] := by
        decide
      rw [hloose, htight]
      simp only [List.mem_cons, List.not_mem_nil, or_false]
      tauto
  have hunion := ignoring_orderedUnion listedTightly ["vendor", "test", "vendor"] [] _ _ hsame
  refine ⟨hsame, ?_, fun fs root ↦ (hunion fs root).2.2.2.2⟩
  rw [(hunion ⟨.faulty, []⟩ "").1]
  decide

end CallSites
