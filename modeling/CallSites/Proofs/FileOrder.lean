import CallSites.Proofs.Exclusion

/-!
# The order of files

The report on a tree depends on the order in which its files are read: names stand where they are
called first, and locations where they were found. Another order of the same files changes nothing
else. The calls of all files are then a permutation of what they were, the declared names are the
same set, and every count, either set of names and the locations of each name can be read off from
these two.

A file keeps its own order. The locations of a name are those of the first file, then those of the
second and so on, each list being a matter of its file alone.
-/

namespace CallSites

/-- The locations that a report gives for a name, on whatever side. -/
def Report.locationsOf (r : Report) (name : String) : List Location :=
  ((r.internal ++ r.external).filter fun e ↦ decide (e.name = name)).flatMap (·.locations.toList)

/-- The locations of a name in one file, in the order of the file. -/
def ownLocations (keywords : Keywords) (name : String) (f : String × List Char) : List Location :=
  History.locations (calls keywords f.1 f.2) name

variable {keywords : Keywords} {files files' : List (String × List Char)}

/-! ## Locations file by file -/

theorem History.locations_flatMap {α : Type} (f : α → List Call) (l : List α) (name : String) :
    locations (l.flatMap f) name = l.flatMap fun a ↦ locations (f a) name := by
  rw [locations, List.filter_flatMap, List.map_flatMap]
  rfl

/-- Looking a name up among names filed on two sides finds it once, if it is there. -/
theorem filter_eq_of_sides {names : List String} (hnodup : names.Nodup) (side : String → Bool)
    (name : String) :
    (names.filter side ++ names.filter fun n ↦ !side n).filter (fun n ↦ decide (n = name)) =
      if name ∈ names then [name] else [] := by
  have hperm := List.filter_append_perm side names
  have hnodup' := hperm.nodup_iff.mpr hnodup
  rw [List.filter_eq, hnodup'.count]
  simp only [hperm.mem_iff]
  split <;> rfl

theorem locationsOf_eq_locations (name : String) :
    (reportOn keywords files).locationsOf name =
      History.locations (callsIn keywords files) name := by
  have hsides := filter_eq_of_sides (History.nodup_names (callsIn keywords files))
    (fun n ↦ decide (n ∈ declaredIn keywords files)) name
  simp only [← decide_not] at hsides
  rw [Report.locationsOf, internal_reportOn, external_reportOn, ← List.map_append, List.filter_map]
  change (List.map _ (List.filter (fun n ↦ decide (n = name)) _)).flatMap _ = _
  rw [hsides]
  split
  · rw [List.map_singleton, List.flatMap_singleton]
    rfl
  · rename_i hname
    rw [History.locations_eq_nil_iff.mpr hname]
    rfl

/-- **Locations file by file.** The locations of a name are those of each file, one file after the
other. -/
theorem locationsOf_reportOn (name : String) :
    (reportOn keywords files).locationsOf name = files.flatMap (ownLocations keywords name) := by
  rw [locationsOf_eq_locations, callsIn, History.locations_flatMap]
  rfl

theorem file_of_mem_ownLocations {name : String} {f : String × List Char} {l : Location}
    (hl : l ∈ ownLocations keywords name f) : l.file = f.1 := by
  rw [ownLocations, History.locations, List.mem_map] at hl
  obtain ⟨c, hc, rfl⟩ := hl
  have hcalls := (List.mem_filter.mp hc).1
  rw [calls, List.mem_flatMap] at hcalls
  obtain ⟨⟨line, number⟩, -, hcall⟩ := hcalls
  obtain ⟨n, -, rfl⟩ := List.mem_map.mp hcall
  rfl

/-- The locations in the files of one path are what these files contribute. -/
theorem filter_file_locationsOf (name path : String) :
    ((reportOn keywords files).locationsOf name).filter (fun l ↦ decide (l.file = path)) =
      (files.filter fun f ↦ decide (f.1 = path)).flatMap (ownLocations keywords name) := by
  rw [locationsOf_reportOn, List.filter_flatMap]
  induction files with
  | nil => rfl
  | cons f files ih =>
    rw [List.flatMap_cons, ih]
    by_cases hf : f.1 = path
    · rw [List.filter_cons_of_pos (by simpa using hf), List.flatMap_cons]
      congr 1
      rw [List.filter_eq_self]
      intro l hl
      exact decide_eq_true ((file_of_mem_ownLocations hl).trans hf)
    · rw [List.filter_cons_of_neg (by simpa using hf)]
      convert List.nil_append _
      rw [List.filter_eq_nil_iff]
      intro l hl
      rw [decide_eq_true_eq, file_of_mem_ownLocations hl]
      exact hf

/-! ## Counts and names -/

/-- The calls of the names on one side are counted one by one. -/
theorem countLocations_side (E : List Call) (side : String → Bool) :
    countLocations (((History.names E).filter side).map (History.entry E)) =
      E.countP fun c ↦ side c.name := by
  have hentries : ((History.names E).filter side).map (History.entry E) =
      History.entries (E.filter fun c ↦ side c.name) := by
    rw [History.entries, History.names_filter]
    apply List.map_congr_left
    intro n hn
    exact (History.entry_filter side E (List.mem_filter.mp hn).2).symm
  rw [hentries, countLocations_entries, List.countP_eq_length_filter]

theorem internalCount_reportOn :
    (reportOn keywords files).internalCount =
      (callsIn keywords files).countP fun c ↦ decide (c.name ∈ declaredIn keywords files) := by
  rw [Report.internalCount, internal_reportOn, countLocations_side]

theorem externalCount_reportOn :
    (reportOn keywords files).externalCount =
      (callsIn keywords files).countP fun c ↦ decide (c.name ∉ declaredIn keywords files) := by
  rw [Report.externalCount, external_reportOn, countLocations_side]

theorem exists_internal_iff {name : String} :
    (∃ e ∈ (reportOn keywords files).internal, e.name = name) ↔
      (∃ c ∈ callsIn keywords files, c.name = name) ∧ name ∈ declaredIn keywords files := by
  rw [internal_reportOn, ← History.mem_names]
  simp [History.entry]

theorem exists_external_iff {name : String} :
    (∃ e ∈ (reportOn keywords files).external, e.name = name) ↔
      (∃ c ∈ callsIn keywords files, c.name = name) ∧ name ∉ declaredIn keywords files := by
  rw [external_reportOn, ← History.mem_names]
  simp [History.entry]

/-! ## Another order -/

theorem callsIn_perm (keywords : Keywords) (h : files.Perm files') :
    (callsIn keywords files).Perm (callsIn keywords files') :=
  h.flatMap_right _

theorem declaredIn_eq_of_perm (keywords : Keywords) (h : files.Perm files') :
    declaredIn keywords files = declaredIn keywords files' := by
  ext name
  simp only [mem_declaredIn, h.mem_iff]

/-- `r` and `r'` report the same calls, in whatever order. -/
structure Report.SameButForOrder (r r' : Report) : Prop where
  files_eq : r.files = r'.files
  declarations_eq : r.declarations = r'.declarations
  internalCount_eq : r.internalCount = r'.internalCount
  externalCount_eq : r.externalCount = r'.externalCount
  total_eq : r.total = r'.total
  internal_names : ∀ n, (∃ e ∈ r.internal, e.name = n) ↔ ∃ e ∈ r'.internal, e.name = n
  external_names : ∀ n, (∃ e ∈ r.external, e.name = n) ↔ ∃ e ∈ r'.external, e.name = n
  locations_perm : ∀ n, (r.locationsOf n).Perm (r'.locationsOf n)

theorem sameButForOrder_of_perm (h : files.Perm files') :
    (reportOn keywords files).SameButForOrder (reportOn keywords files') := by
  have hcalls := callsIn_perm keywords h
  have hdeclared := declaredIn_eq_of_perm keywords h
  have hsums := Findings.sums_ofFiles keywords files
  have hsums' := Findings.sums_ofFiles keywords files'
  constructor
  · exact hsums.files.trans (h.length_eq.trans hsums'.files.symm)
  · calc (reportOn keywords files).declarations
        = (declaredIn keywords files).card := NameSet.size_eq_card hsums.declarations
      _ = (declaredIn keywords files').card := by rw [hdeclared]
      _ = (reportOn keywords files').declarations :=
        (NameSet.size_eq_card hsums'.declarations).symm
  · rw [internalCount_reportOn, internalCount_reportOn, hdeclared, hcalls.countP_eq]
  · rw [externalCount_reportOn, externalCount_reportOn, hdeclared, hcalls.countP_eq]
  · rw [total_reportOn, total_reportOn, hcalls.length_eq]
  · intro n
    simp only [exists_internal_iff, hcalls.mem_iff, hdeclared]
  · intro n
    simp only [exists_external_iff, hcalls.mem_iff, hdeclared]
  · intro n
    rw [locationsOf_reportOn, locationsOf_reportOn]
    exact h.flatMap_right _

/-- **File order changes only order.** Reports on the same files in two orders agree in all counts,
in the names on either side and in the locations of each name up to their order. In both the
locations of a name are put together from what each file has of its own, in the file's order; so a
path that only one file has shows the same locations in the same order. -/
theorem reportOn_of_perm (keywords : Keywords) (files files' : List (String × List Char))
    (h : files.Perm files') :
    (reportOn keywords files).SameButForOrder (reportOn keywords files') ∧
      (∀ name, (reportOn keywords files).locationsOf name =
          files.flatMap (ownLocations keywords name) ∧
        (reportOn keywords files').locationsOf name =
          files'.flatMap (ownLocations keywords name)) ∧
      ∀ name path, (files.filter fun f ↦ decide (f.1 = path)).length ≤ 1 →
        ((reportOn keywords files).locationsOf name).filter (fun l ↦ decide (l.file = path)) =
          ((reportOn keywords files').locationsOf name).filter fun l ↦ decide (l.file = path) := by
  refine ⟨sameButForOrder_of_perm h,
    fun name ↦ ⟨locationsOf_reportOn name, locationsOf_reportOn name⟩, ?_⟩
  intro name path hone
  rw [filter_file_locationsOf, filter_file_locationsOf]
  congr 1
  -- lists of at most one file have one order only
  have hperm := h.filter fun f ↦ decide (f.1 = path)
  rcases Nat.le_one_iff_eq_zero_or_eq_one.mp hone with hzero | hsingle
  · rw [List.length_eq_zero_iff] at hzero
    rw [hzero] at hperm ⊢
    exact hperm.nil_eq
  · obtain ⟨f, hf⟩ := List.length_eq_one_iff.mp hsingle
    rw [hf] at hperm ⊢
    exact (List.perm_singleton.mp hperm.symm).symm

/-- A file that calls a name twice. -/
def callingFile : String × List Char :=
  ("a.c", ['f', '(', ')', ';', '\n', 'f', '(', ')', ';'])

/-- A file that declares and calls the same name. -/
def declaringFile : String × List Char :=
  ("b.c", ['f', '(', ')', '\x7b', 'f', '(', ')', ';', '\x7d'])

theorem reportOn_calling_declaring :
    [callingFile, declaringFile].Perm [declaringFile, callingFile] ∧
      (reportOn default [callingFile, declaringFile]).SameButForOrder
        (reportOn default [declaringFile, callingFile]) ∧
      ((reportOn default [callingFile, declaringFile]).locationsOf "f").filter
          (fun l ↦ decide (l.file = "a.c")) =
        ((reportOn default [declaringFile, callingFile]).locationsOf "f").filter
          fun l ↦ decide (l.file = "a.c") := by
  have h : [callingFile, declaringFile].Perm [declaringFile, callingFile] := List.Perm.swap ..
  have hreports := reportOn_of_perm default _ _ h
  exact ⟨h, hreports.1, hreports.2.2 "f" "a.c" (by decide)⟩

end CallSites
