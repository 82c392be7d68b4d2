import Mathlib.Data.List.Lex
import Mathlib.Data.List.Nodup
import CallSites.Proofs.Encoding
import CallSites.Proofs.Settings
import CallSites.Proofs.Walk

/-!
# Walks without links

Where no links are, a walk is what a reader of the settings expects: a selection of the files below
the root, sorted by their paths. Nothing can go wrong on the way as long as the directories can be
listed, and nothing comes up twice.

The walk itself neither selects from all files nor sorts paths. It sorts one directory at a time, in
which files and directories stand side by side, and leaves out whole directories. That the paths
come out sorted is due to the order being decided at the first name in which two paths differ: it is
then a matter of one directory, the last one that the two have in common.

The names are compared by code points; the order of paths is stated on the bytes of the names, which
comes to the same.
-/

namespace CallSites

/-! ## Trees without links -/

mutual

/-- Whether a tree and everything below it passes a test. -/
def FileTree.all (p : FileTree → Bool) : FileTree → Bool
  | .dir entries => p (.dir entries) && allIn p entries
  | t => p t

/-- Whether all entries and everything below them pass a test. -/
def FileTree.allIn (p : FileTree → Bool) : List (String × FileTree) → Bool
  | [] => true
  | (_, t) :: entries => all p t && allIn p entries

end

/-- Whether there is no link in a tree. -/
def FileTree.isLinkFree : FileTree → Bool :=
  all (!·.isLink)

/-- Whether every directory of a tree can be listed. -/
def FileTree.isListable : FileTree → Bool :=
  all fun
    | .barred => false
    | _ => true

theorem FileTree.all_of_mem {p : FileTree → Bool} {entries : List (String × FileTree)}
    {name : String} {t : FileTree} (h : all p (.dir entries)) (hmem : (name, t) ∈ entries) :
    t.all p := by
  rw [all, Bool.and_eq_true] at h
  replace h := h.2
  induction entries with
  | nil => exact absurd hmem List.not_mem_nil
  | cons e entries ih =>
    rw [allIn, Bool.and_eq_true] at h
    rcases List.mem_cons.mp hmem with heq | hmem
    · cases heq
      exact h.1
    · exact ih hmem h.2

theorem FileTree.exists_of_at?_cons {t u : FileTree} {name : String} {way : List String}
    (h : t.at? (name :: way) = some u) :
    ∃ entries child, t = .dir entries ∧ entries.lookup name = some child ∧
      child.at? way = some u := by
  cases t with
  | dir entries =>
    rw [at?] at h
    split at h
    · rename_i child hlookup
      exact ⟨entries, child, rfl, hlookup, h⟩
    · cases h
  | _ => cases h

theorem FileTree.ne_link_of_isLinkFree {t : FileTree} (h : t.isLinkFree) (target : String) :
    t ≠ .link target := by
  rintro rfl
  exact Bool.false_ne_true h

theorem FileTree.ne_barred_of_isListable {t : FileTree} (h : t.isListable) : t ≠ .barred := by
  rintro rfl
  exact Bool.false_ne_true h

/-! ## What the settings want of a tree -/

/-- The names that lead from the top of a tree to a file that should be read: a regular file whose
name ends in a dot and one of the extensions, behind directories none of which is ignored. -/
structure Settings.Wants (settings : Settings) (tree : FileTree) (way : List String) : Prop where
  regular : ∃ t, tree.at? way = some t ∧ t.IsRegular
  /-- Leading dots of an extension do not count. -/
  ending : ∃ name ∈ way.getLast?, ∃ extension ∈ settings.extensions, ∃ dots bare,
    extension.toList = List.replicate dots '.' ++ bare ∧ bare.head? ≠ some '.' ∧
      '.' :: bare <:+ name.toList
  /-- Neither the top nor the file itself may be ignored, only what is between them. -/
  kept : ∀ name ∈ way.dropLast, name ∉ settings.ignoredDirs

/-- Names by their bytes. -/
def NameBefore (name other : String) : Prop :=
  Text.encode name.toList < Text.encode other.toList

/-- Ways by the first names in which they differ. -/
def WayBefore : List String → List String → Prop :=
  List.Lex NameBefore

theorem WayBefore.ne {way other : List String} (h : WayBefore way other) : way ≠ other := by
  refine List.Lex.to_ne (List.Lex.imp (fun name name' hlt heq ↦ ?_) way other h)
  rw [heq] at hlt
  exact List.lt_irrefl _ hlt

section Wants

variable {settings : Settings} {entries : List (String × FileTree)} {name : String}
  {way : List String}

theorem Settings.Wants.ne_nil {tree : FileTree} (h : settings.Wants tree way) : way ≠ [] := by
  rintro rfl
  obtain ⟨name, hname, -⟩ := h.ending
  cases hname

theorem Settings.wants_singleton_iff :
    settings.Wants (.dir entries) [name] ↔
      ∃ t, entries.lookup name = some t ∧ t.IsRegular ∧ settings.reads name := by
  have hat : (FileTree.dir entries).at? [name] = entries.lookup name := by
    rw [FileTree.at?]
    cases entries.lookup name <;> rfl
  rw [Settings.reads_iff]
  constructor
  · rintro ⟨⟨t, ht, hregular⟩, ⟨last, hlast, hending⟩, -⟩
    cases hlast
    exact ⟨t, hat ▸ ht, hregular, hending⟩
  · rintro ⟨t, ht, hregular, hending⟩
    exact ⟨⟨t, hat ▸ ht, hregular⟩, ⟨name, rfl, hending⟩, fun _ h ↦ absurd h List.not_mem_nil⟩

theorem Settings.wants_cons_iff (hway : way ≠ []) :
    settings.Wants (.dir entries) (name :: way) ↔
      ∃ inner, entries.lookup name = some (.dir inner) ∧ settings.ignores name = false ∧
        settings.Wants (.dir inner) way := by
  obtain ⟨next, rest, rfl⟩ := List.exists_cons_of_ne_nil hway
  have hignored : settings.ignores name = false ↔ name ∉ settings.ignoredDirs := by
    rw [← Settings.ignores_iff, Bool.not_eq_true]
  rw [hignored]
  constructor
  · rintro ⟨⟨t, ht, hregular⟩, hending, hkept⟩
    rw [List.dropLast_cons_cons, List.forall_mem_cons] at hkept
    obtain ⟨_, child, heq, hlookup, hchild⟩ := FileTree.exists_of_at?_cons ht
    cases heq
    obtain ⟨inner, -, rfl, -⟩ := FileTree.exists_of_at?_cons hchild
    exact ⟨inner, hlookup, hkept.1, ⟨t, hchild, hregular⟩, hending, hkept.2⟩
  · rintro ⟨inner, hlookup, hname, ⟨t, ht, hregular⟩, hending, hkept⟩
    refine ⟨⟨t, ?_, hregular⟩, hending, ?_⟩
    · rw [FileTree.at?, hlookup]
      exact ht
    · rw [List.dropLast_cons_cons]
      exact List.forall_mem_cons.mpr ⟨hname, hkept⟩

end Wants

/-! ## The ways in the order of the walk -/

/-- The ways to the wanted files below a list of entries, directory by directory. -/
def wantedBelow (settings : Settings) (entries : List (String × FileTree)) : List (List String) :=
  (sortEntries entries).attach.flatMap fun ⟨(name, t), _hmem⟩ ↦
    match t with
    | .dir inner =>
      if settings.ignores name then [] else (wantedBelow settings inner).map (name :: ·)
    | .file _ | .faulty => if settings.reads name then [[name]] else []
    | _ => []
termination_by sizeOf entries
decreasing_by
  have hin : (name, FileTree.dir inner) ∈ entries := List.mem_mergeSort.mp _hmem
  have hsize := List.sizeOf_lt_of_mem hin
  simp only [Prod.mk.sizeOf_spec, FileTree.dir.sizeOf_spec] at hsize
  omega

/-- The ways to the wanted files at one entry. -/
def wantedAt (settings : Settings) (name : String) : FileTree → List (List String)
  | .dir inner =>
    if settings.ignores name then [] else (wantedBelow settings inner).map (name :: ·)
  | .file _ | .faulty => if settings.reads name then [[name]] else []
  | _ => []

theorem wantedBelow_eq (settings : Settings) (entries : List (String × FileTree)) :
    wantedBelow settings entries =
      (sortEntries entries).flatMap fun e ↦ wantedAt settings e.1 e.2 := by
  rw [wantedBelow]
  conv_rhs => rw [← List.attach_map_subtype_val (sortEntries entries), List.flatMap_map]
  apply List.flatMap_congr
  rintro ⟨⟨name, t⟩, _⟩ _
  cases t <;> rfl

section WantedBelow

variable {settings : Settings} {entries : List (String × FileTree)}

theorem mem_wantedAt {name : String} {t : FileTree} {way : List String} :
    way ∈ wantedAt settings name t ↔
      (t.IsRegular ∧ settings.reads name ∧ way = [name]) ∨
        ∃ inner, t = .dir inner ∧ settings.ignores name = false ∧
          ∃ rest ∈ wantedBelow settings inner, name :: rest = way := by
  cases t with
  | dir inner =>
    by_cases hname : settings.ignores name
    · simp [wantedAt, FileTree.IsRegular, hname]
    · simp [wantedAt, FileTree.IsRegular, hname]
  | _ => simp [wantedAt, FileTree.IsRegular]

theorem exists_cons_of_mem_wantedAt {name : String} {t : FileTree} {way : List String}
    (h : way ∈ wantedAt settings name t) : ∃ rest, way = name :: rest := by
  rcases mem_wantedAt.mp h with ⟨-, -, rfl⟩ | ⟨-, -, -, rest, -, rfl⟩
  · exact ⟨[], rfl⟩
  · exact ⟨rest, rfl⟩

/-- **The ways listed are the wanted ones.** -/
theorem mem_wantedBelow (hsound : FileTree.areSound entries) {way : List String} :
    way ∈ wantedBelow settings entries ↔ settings.Wants (.dir entries) way := by
  induction entries using wantedBelow.induct generalizing way with
  | case1 entries ih =>
    -- an entry is found again by its name
    have hentry : ∀ {name t}, (name, t) ∈ sortEntries entries ↔ entries.lookup name = some t := by
      intro name t
      rw [sortEntries, List.mem_mergeSort]
      exact ⟨fun hmem ↦ (FileTree.of_mem_areSound hsound hmem).2.2, FileTree.mem_of_lookup⟩
    have hinner : ∀ {name inner rest}, (name, FileTree.dir inner) ∈ sortEntries entries →
        (rest ∈ wantedBelow settings inner ↔ settings.Wants (.dir inner) rest) := by
      intro name inner rest hmem
      have hsound' := (FileTree.of_mem_areSound hsound (List.mem_mergeSort.mp hmem)).2.1
      rw [FileTree.isSound] at hsound'
      exact ih name inner hmem hsound'
    rw [wantedBelow_eq, List.mem_flatMap]
    constructor
    · rintro ⟨⟨name, t⟩, hmem, hway⟩
      rcases mem_wantedAt.mp hway with
        ⟨hregular, hreads, rfl⟩ | ⟨inner, rfl, hname, rest, hrest, rfl⟩
      · exact Settings.wants_singleton_iff.mpr ⟨t, hentry.mp hmem, hregular, hreads⟩
      · rw [hinner hmem] at hrest
        exact (Settings.wants_cons_iff hrest.ne_nil).mpr ⟨inner, hentry.mp hmem, hname, hrest⟩
    · intro hwants
      rcases way with _ | ⟨name, _ | ⟨next, rest⟩⟩
      · exact absurd rfl hwants.ne_nil
      · obtain ⟨t, hlookup, hregular, hreads⟩ := Settings.wants_singleton_iff.mp hwants
        exact ⟨(name, t), hentry.mpr hlookup, mem_wantedAt.mpr (.inl ⟨hregular, hreads, rfl⟩)⟩
      · obtain ⟨inner, hlookup, hname, hrest⟩ :=
          (Settings.wants_cons_iff (List.cons_ne_nil next rest)).mp hwants
        have hmem := hentry.mpr hlookup
        exact ⟨(name, .dir inner), hmem, mem_wantedAt.mpr
          (.inr ⟨inner, rfl, hname, next :: rest, (hinner hmem).mpr hrest, rfl⟩)⟩

theorem FileTree.pairwise_fst_of_areSound (hsound : FileTree.areSound entries) :
    entries.Pairwise fun e e' ↦ e.1 ≠ e'.1 := by
  induction entries with
  | nil => exact .nil
  | cons e entries ih =>
    obtain ⟨name, t⟩ := e
    simp only [areSound, Bool.and_eq_true, Bool.not_eq_true', List.any_eq_false] at hsound
    refine List.pairwise_cons.mpr ⟨fun e' he' heq ↦ ?_, ih hsound.2⟩
    exact hsound.1.1.2 e' he' (beq_iff_eq.mpr heq.symm)

/-- A directory is listed by strictly increasing names. -/
theorem pairwise_sortEntries (hsound : FileTree.areSound entries) :
    (sortEntries entries).Pairwise fun e e' ↦ NameBefore e.1 e'.1 := by
  have hsorted : (sortEntries entries).Pairwise fun e e' ↦ !decide (e'.1 < e.1) := by
    refine List.pairwise_mergeSort (fun a b c hab hbc ↦ ?_) (fun a b ↦ ?_) entries
    · simp only [Bool.not_eq_true', decide_eq_false_iff_not, String.not_lt] at hab hbc ⊢
      exact String.le_trans hab hbc
    · simp only [Bool.or_eq_true, Bool.not_eq_true', decide_eq_false_iff_not, String.not_lt]
      exact String.le_total a.1 b.1
  have hdistinct : (sortEntries entries).Pairwise fun e e' ↦ e.1 ≠ e'.1 :=
    (List.mergeSort_perm entries _).symm.pairwise (FileTree.pairwise_fst_of_areSound hsound)
      Ne.symm
  refine (hsorted.and hdistinct).imp fun {e e'} h ↦ ?_
  have hle : e.1 ≤ e'.1 := by
    simpa only [Bool.not_eq_true', decide_eq_false_iff_not, String.not_lt] using h.1
  have hlt : e.1 < e'.1 := Std.lt_of_le_of_ne hle h.2
  exact Text.encode_lt_encode hlt

/-- **The ways are listed in order.** -/
theorem pairwise_wantedBelow (hsound : FileTree.areSound entries) :
    (wantedBelow settings entries).Pairwise WayBefore := by
  induction entries using wantedBelow.induct with
  | case1 entries ih =>
    rw [wantedBelow_eq, List.pairwise_flatMap]
    constructor
    · rintro ⟨name, t⟩ hmem
      have ht := (FileTree.of_mem_areSound hsound (List.mem_mergeSort.mp hmem)).2.1
      cases t with
      | dir inner =>
        rw [FileTree.isSound] at ht
        simp only [wantedAt]
        split
        · exact .nil
        · exact List.pairwise_map.mpr ((ih name inner hmem ht).imp fun h ↦ .cons h)
      | link target => exact .nil
      | device => exact .nil
      | barred => exact .nil
      | _ =>
        simp only [wantedAt]
        split
        · exact List.pairwise_singleton _ _
        · exact .nil
    · -- between two entries their names decide
      refine (pairwise_sortEntries hsound).imp fun {e e'} hlt way hway way' hway' ↦ ?_
      obtain ⟨rest, rfl⟩ := exists_cons_of_mem_wantedAt hway
      obtain ⟨rest', rfl⟩ := exists_cons_of_mem_wantedAt hway'
      exact .rel hlt

end WantedBelow

/-! ## Paths below a sound directory -/

section Paths

variable {fs : FileSystem} {settings : Settings} {above : List Listing} {path root : String}
  {spot : Spot} {entries : List (String × FileTree)} {way : List String} {t : FileTree}

theorem isEntryName_of_at? {tree : FileTree} (hsound : tree.isSound)
    (hat : tree.at? way = some t) : ∀ n ∈ way, isEntryName n := by
  induction way generalizing tree with
  | nil => exact nofun
  | cons name way ih =>
    obtain ⟨entries, child, rfl, hlookup, hat⟩ := FileTree.exists_of_at?_cons hat
    rw [FileTree.isSound] at hsound
    obtain ⟨hname, hchild, -⟩ := FileTree.of_mem_areSound hsound (FileTree.mem_of_lookup hlookup)
    exact List.forall_mem_cons.mpr ⟨hname, ih hchild hat⟩

/-- Names below a directory without links lead where the tree has them. -/
theorem find_pathAlong {tree : FileTree} (hroot : fs.find root = .ok (spot, tree))
    (hsound : tree.isSound) (hlinks : tree.isLinkFree) (hat : tree.at? way = some t) :
    fs.find (pathAlong root way) = .ok (spot ++ way, t) := by
  induction way generalizing root spot tree with
  | nil =>
    cases hat
    rw [List.append_nil]
    exact hroot
  | cons name way ih =>
    obtain ⟨entries, child, rfl, hlookup, hat⟩ := FileTree.exists_of_at?_cons hat
    rw [FileTree.isSound] at hsound
    have hmem := FileTree.mem_of_lookup hlookup
    obtain ⟨hname, hchild, -⟩ := FileTree.of_mem_areSound hsound hmem
    have hchild' : child.isLinkFree := FileTree.all_of_mem hlinks hmem
    have hfind :=
      FileSystem.find_joinPath hroot hname hlookup (FileTree.ne_link_of_isLinkFree hchild')
    rw [List.append_cons]
    exact ih hfind hchild hchild' hat

/-- **A walk without links lists the wanted ways.** -/
theorem walkBelow_eq_map (hlinks : (FileTree.dir entries).isLinkFree)
    (hlisted : (FileTree.dir entries).isListable) :
    walkBelow fs settings above path spot entries =
      (wantedBelow settings entries).map fun way ↦ .source (pathAlong path way) := by
  induction above, path, spot, entries using walkBelow.induct fs with
  | case1 above path spot entries ihdir _ =>
    rw [walkBelow_eq, wantedBelow_eq, List.map_flatMap]
    apply List.flatMap_congr
    rintro ⟨name, t⟩ hmem
    have hfree : t.isLinkFree := FileTree.all_of_mem hlinks (List.mem_mergeSort.mp hmem)
    have hopen : t.isListable := FileTree.all_of_mem hlisted (List.mem_mergeSort.mp hmem)
    cases t with
    | dir inner =>
      simp only [walkEntry, wantedAt]
      split
      · rfl
      · rw [ihdir name inner hmem hfree hopen, List.map_map]
        rfl
    | link target => exact absurd rfl (FileTree.ne_link_of_isLinkFree hfree target)
    | barred => exact absurd rfl (FileTree.ne_barred_of_isListable hopen)
    | device => rfl
    | _ =>
      simp only [walkEntry, walkFile, wantedAt]
      split <;> rfl

/-- Ways of names are told apart by their paths. -/
theorem eq_of_pathAlong_eq {way' : List String} (hway : ∀ n ∈ way, isEntryName n)
    (hway' : ∀ n ∈ way', isEntryName n) (hne : way ≠ []) (hne' : way' ≠ [])
    (h : pathAlong root way = pathAlong root way') : way = way' := by
  have hproper : ∀ {names : List String}, (∀ n ∈ names, isEntryName n) →
      ∀ n ∈ names, n ≠ "" ∧ '/' ∉ n.toList := by
    intro names hnames n hn
    obtain ⟨hempty, -, -, hslash⟩ := isEntryName_iff.mp (hnames n hn)
    exact ⟨hempty, hslash⟩
  have hnames := congrArg pathNames h
  rw [pathNames_pathAlong root hne (hproper hway), pathNames_pathAlong root hne' (hproper hway')]
    at hnames
  exact List.append_cancel_left hnames

end Paths

/-! ## Main result -/

/-- **The walk of a tree without links.** Let a root lead to a directory with no link in it, all of
whose directories can be listed. The walk comes by source files only, and these are the wanted ones,
each once, by the order of their ways; the path of each leads to it. -/
theorem walk_of_linkFree (fs : FileSystem) (settings : Settings) (root : String) {spot : Spot}
    {entries : List (String × FileTree)} (hroot : fs.find root = .ok (spot, .dir entries))
    (hsound : (FileTree.dir entries).isSound) (hlinks : (FileTree.dir entries).isLinkFree)
    (hlisted : (FileTree.dir entries).isListable) :
    ∃ ways : List (List String),
      walk fs settings root = ways.map (fun way ↦ .source (pathAlong root way)) ∧
      (∀ way, way ∈ ways ↔ settings.Wants (.dir entries) way) ∧
      ways.Pairwise WayBefore ∧
      (walk fs settings root).Nodup ∧
      ∀ way ∈ ways, ∃ t, fs.find (pathAlong root way) = .ok (spot ++ way, t) ∧ t.IsRegular := by
  have hentries : FileTree.areSound entries := by rwa [FileTree.isSound] at hsound
  have hmem : ∀ way, way ∈ wantedBelow settings entries ↔ settings.Wants (.dir entries) way :=
    fun way ↦ mem_wantedBelow hentries
  have hordered : (wantedBelow settings entries).Pairwise WayBefore := pairwise_wantedBelow hentries
  have hwalk : walk fs settings root =
      (wantedBelow settings entries).map fun way ↦ .source (pathAlong root way) := by
    rw [walk, hroot]
    exact walkBelow_eq_map hlinks hlisted
  refine ⟨wantedBelow settings entries, hwalk, hmem, hordered, ?_, ?_⟩
  · rw [hwalk]
    refine List.Nodup.map_on (fun way hway way' hway' heq ↦ ?_) (hordered.imp WayBefore.ne)
    have hwants := (hmem way).mp hway
    have hwants' := (hmem way').mp hway'
    obtain ⟨t, hat, -⟩ := hwants.regular
    obtain ⟨t', hat', -⟩ := hwants'.regular
    exact eq_of_pathAlong_eq (isEntryName_of_at? hsound hat) (isEntryName_of_at? hsound hat')
      hwants.ne_nil hwants'.ne_nil (WalkItem.source.inj heq)
  · intro way hway
    obtain ⟨t, hat, hregular⟩ := ((hmem way).mp hway).regular
    exact ⟨t, find_pathAlong hroot hsound hlinks hat, hregular⟩

/-- Directories beside files of nearly the same names, under a name that is itself ignored. -/
def besideEachOther : List (String × FileTree) :=
  [("a.c", .file []), ("bonus", .dir [("y.c", .file [])]), ("a", .dir [("x.c", .faulty)]),
    ("bonus.c", .file []), ("a.h", .file []), ("ah", .file [])]

/-- The two extensions are given with dots, one of them with two. -/
theorem walk_of_besideEachOther :
    FileTree.isSound (.dir besideEachOther) ∧ FileTree.isLinkFree (.dir besideEachOther) ∧
      FileTree.isListable (.dir besideEachOther) ∧
      ∃ ways : List (List String),
        walk ⟨.dir [("test", .dir besideEachOther)], []⟩ { extensions := [".h", "..c"] } "test" =
          ways.map (fun way ↦ .source (pathAlong "test" way)) ∧
        ["a", "x.c"] ∈ ways ∧ ["bonus.c"] ∈ ways ∧ ["a.h"] ∈ ways ∧
        ["ah"] ∉ ways ∧ ["bonus", "y.c"] ∉ ways ∧ ways.Pairwise WayBefore := by
  have hroot : FileSystem.find ⟨.dir [("test", .dir besideEachOther)], []⟩ "test" =
      .ok (["test"], .dir besideEachOther) := by
    refine FileSystem.find_eq_ok_iff.mpr ⟨by decide, ?_, rfl⟩
    exact FileSystem.resolveFrom_of_arrived rfl
  have hsound : FileTree.isSound (.dir besideEachOther) := by decide
  have hlinks : FileTree.isLinkFree (.dir besideEachOther) := by decide
  have hlisted : FileTree.isListable (.dir besideEachOther) := by decide
  obtain ⟨ways, hwalk, hmem, hordered, -⟩ :=
    walk_of_linkFree _ { extensions := [".h", "..c"] } "test" hroot hsound hlinks hlisted
  refine ⟨hsound, hlinks, hlisted, ways, hwalk, (hmem _).mpr ?_, (hmem _).mpr ?_, (hmem _).mpr ?_,
    ?_, ?_, hordered⟩
  · exact ⟨⟨.faulty, rfl, .inr rfl⟩,
      ⟨"x.c", rfl, "..c", by decide, 2, ['c'], by decide, by decide, by decide⟩, by decide⟩
  · exact ⟨⟨.file [], rfl, .inl ⟨[], rfl⟩⟩,
      ⟨"bonus.c", rfl, "..c", by decide, 2, ['c'], by decide, by decide, by decide⟩, by decide⟩
  · exact ⟨⟨.file [], rfl, .inl ⟨[], rfl⟩⟩,
      ⟨"a.h", rfl, ".h", by decide, 1, ['h'], by decide, by decide, by decide⟩, by decide⟩
  · intro hway
    obtain ⟨name, hname, hending⟩ := ((hmem _).mp hway).ending
    cases hname
    exact absurd (Settings.reads_iff.mpr hending) (by decide)
  · intro hway
    exact ((hmem _).mp hway).kept "bonus" (by decide) (by decide)

end CallSites
