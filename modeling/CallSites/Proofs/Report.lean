import Mathlib.Algebra.BigOperators.Group.List.Lemmas
import Mathlib.Algebra.GroupWithZero.Nat
import Mathlib.Data.Finset.Card
import CallSites.Report
import CallSites.Proofs.Record

/-!
# Reports and histories

The files of a tree are read one after the other, each into a record of its own, and the records are
merged. Nothing of this shows in the report: it is the report on one history, the calls of all files
one after the other, filed by one set of names, those that any file declares.
-/

namespace CallSites

/-- The report on texts under their file names. -/
def reportOn (keywords : Keywords) (files : List (String × List Char)) : Report :=
  (Findings.ofFiles (files.map fun f ↦ .ofText keywords f.1 f.2)).report

/-- The calls of all files, file after file. -/
def callsIn (keywords : Keywords) (files : List (String × List Char)) : List Call :=
  files.flatMap fun f ↦ calls keywords f.1 f.2

/-- The names that some file declares. -/
def declaredIn (keywords : Keywords) (files : List (String × List Char)) : Finset String :=
  (files.flatMap fun f ↦ (declared keywords f.2).toList).toFinset

theorem mem_declaredIn {keywords : Keywords} {files : List (String × List Char)} {name : String} :
    name ∈ declaredIn keywords files ↔ ∃ f ∈ files, name ∈ declared keywords f.2 := by
  rw [declaredIn, List.mem_toFinset, List.mem_flatMap]
  rfl

/-! ## Adding up files -/

/-- The findings of a tree: one history, one set of names, and the number of files. -/
structure Findings.Sums (f : Findings) (keywords : Keywords) (files : List (String × List Char)) :
    Prop where
  calls : f.calls.Holds (callsIn keywords files)
  declarations : ∀ n, n ∈ f.declarations ↔ n ∈ declaredIn keywords files
  files : f.files = files.length

theorem Findings.sums_ofFiles (keywords : Keywords) (files : List (String × List Char)) :
    (Findings.ofFiles (files.map fun f ↦ .ofText keywords f.1 f.2)).Sums keywords files := by
  induction files using List.reverseRecOn with
  | nil =>
    refine ⟨Record.holds_empty, fun n ↦ ?_, rfl⟩
    exact ⟨fun h ↦ absurd h (NameSet.not_mem_empty n), fun h ↦ absurd h (Finset.notMem_empty n)⟩
  | append_singleton files f ih =>
    rw [Findings.ofFiles, List.map_append, List.foldl_append]
    refine ⟨?_, fun n ↦ ?_, ?_⟩
    · have hcalls : callsIn keywords (files ++ [f]) =
          callsIn keywords files ++ CallSites.calls keywords f.1 f.2 := by
        rw [callsIn, List.flatMap_append, List.flatMap_singleton]
        rfl
      rw [hcalls]
      exact ih.calls.merge (Record.holds_ofCalls _)
    · change n ∈ (Findings.ofFiles (files.map fun f ↦ .ofText keywords f.1 f.2)).declarations.union
        (declared keywords f.2) ↔ _
      rw [NameSet.mem_union, ih.declarations, mem_declaredIn, mem_declaredIn]
      simp [or_and_right, exists_or]
    · rw [List.length_append, ← ih.files]
      rfl

/-! ## Counting -/

theorem countLocations_eq_sum (entries : List Entry) :
    countLocations entries = (entries.map fun e ↦ e.locations.size).sum := by
  rw [countLocations]
  induction entries with
  | nil => rfl
  | cons e entries ih => rw [List.foldr_cons, ih, List.map_cons, List.sum_cons]

theorem countLocations_filter_add (p : Entry → Bool) (entries : List Entry) :
    countLocations (entries.filter p) + countLocations (entries.filter fun e ↦ !p e) =
      countLocations entries := by
  rw [countLocations_eq_sum, countLocations_eq_sum, countLocations_eq_sum]
  induction entries with
  | nil => rfl
  | cons e entries ih =>
    rw [List.map_cons, List.sum_cons, ← ih]
    by_cases he : p e
    · rw [List.filter_cons_of_pos he, List.filter_cons_of_neg (by simpa using he), List.map_cons,
        List.sum_cons, Nat.add_assoc]
    · rw [List.filter_cons_of_neg he, List.filter_cons_of_pos (by simpa using he), List.map_cons,
        List.sum_cons, Nat.add_left_comm]

/-- Grouping loses no call. -/
theorem countLocations_entries (calls : List Call) :
    countLocations (History.entries calls) = calls.length := by
  have hperm : (History.names calls).Perm (calls.map (·.name)).dedup := by
    rw [List.perm_ext_iff_of_nodup (History.nodup_names calls) (List.nodup_dedup _)]
    intro n
    rw [History.names, List.mem_eraseDups, List.mem_dedup]
  -- a name has as many locations as it has calls
  have hsize : ∀ n, (History.entry calls n).locations.size = (calls.map (·.name)).count n := by
    intro n
    rw [History.entry, List.size_toArray, History.locations, List.length_map,
      ← List.countP_eq_length_filter, List.count, List.countP_map]
    rfl
  rw [countLocations_eq_sum, History.entries, List.map_map]
  calc ((History.names calls).map _).sum
      = ((calls.map (·.name)).dedup.map fun n ↦ (calls.map (·.name)).count n).sum := by
        rw [(hperm.map _).sum_eq]
        exact congrArg List.sum (List.map_congr_left fun n _ ↦ hsize n)
    _ = calls.length := by rw [List.sum_map_count_dedup_eq_length, List.length_map]

/-- A set of names has as many members as any other presentation of it. -/
theorem NameSet.size_eq_card {s : NameSet} {names : Finset String} (h : ∀ n, n ∈ s ↔ n ∈ names) :
    s.size = names.card := by
  have hnodup : s.toList.Nodup := s.sorted.imp fun {a b} (hlt : a < b) (heq : a = b) ↦
    String.lt_irrefl a (heq ▸ hlt)
  have hnames : names = s.toList.toFinset := by
    ext n
    rw [← h n, List.mem_toFinset]
    rfl
  rw [hnames, List.toFinset_card_of_nodup hnodup, NameSet.size]

/-! ## The report -/

theorem Findings.report_internal (f : Findings) :
    f.report.internal = f.calls.entries.toList.filter fun e ↦ decide (e.name ∈ f.declarations) := by
  rw [Findings.report, List.partition_eq_filter_filter]

theorem Findings.report_external (f : Findings) :
    f.report.external =
      f.calls.entries.toList.filter fun e ↦ !decide (e.name ∈ f.declarations) := by
  rw [Findings.report, List.partition_eq_filter_filter]
  rfl

section ReportOn

variable (keywords : Keywords) (files : List (String × List Char))

/-- The internal entries are the called names that are declared, by first occurrence. -/
theorem internal_reportOn :
    (reportOn keywords files).internal =
      ((History.names (callsIn keywords files)).filter (· ∈ declaredIn keywords files)).map
        (History.entry (callsIn keywords files)) := by
  have hsums := Findings.sums_ofFiles keywords files
  rw [reportOn, Findings.report_internal, hsums.calls.entries_eq, History.entries, List.filter_map]
  refine congrArg _ (List.filter_congr fun n _ ↦ ?_)
  exact decide_eq_decide.mpr (hsums.declarations n)

/-- The external entries are the called names that are not declared, by first occurrence. -/
theorem external_reportOn :
    (reportOn keywords files).external =
      ((History.names (callsIn keywords files)).filter (· ∉ declaredIn keywords files)).map
        (History.entry (callsIn keywords files)) := by
  have hsums := Findings.sums_ofFiles keywords files
  rw [reportOn, Findings.report_external, hsums.calls.entries_eq, History.entries, List.filter_map]
  refine congrArg _ (List.filter_congr fun n _ ↦ ?_)
  rw [decide_not, ← decide_eq_decide.mpr (hsums.declarations n)]
  rfl

theorem total_reportOn : (reportOn keywords files).total = (callsIn keywords files).length := by
  rw [Report.total, Report.internalCount, Report.externalCount, reportOn, Findings.report_internal,
    Findings.report_external, countLocations_filter_add,
    (Findings.sums_ofFiles keywords files).calls.entries_eq, countLocations_entries]

/-- Nothing is reported but called names. -/
theorem exists_entry_of_mem_reportOn {e : Entry}
    (he : e ∈ (reportOn keywords files).internal ++ (reportOn keywords files).external) :
    ∃ n ∈ History.names (callsIn keywords files),
      e = History.entry (callsIn keywords files) n := by
  rw [internal_reportOn, external_reportOn, ← List.map_append, List.mem_map] at he
  obtain ⟨n, hn, rfl⟩ := he
  rw [List.mem_append, List.mem_filter, List.mem_filter] at hn
  exact ⟨n, hn.elim And.left And.left, rfl⟩

/-- No name is on both sides. -/
theorem name_ne_of_mem_reportOn {e e' : Entry} (he : e ∈ (reportOn keywords files).internal)
    (he' : e' ∈ (reportOn keywords files).external) : e.name ≠ e'.name := by
  rw [internal_reportOn, List.mem_map] at he
  rw [external_reportOn, List.mem_map] at he'
  obtain ⟨n, hn, rfl⟩ := he
  obtain ⟨n', hn', rfl⟩ := he'
  intro heq
  obtain rfl : n = n' := heq
  have hin := (List.mem_filter.mp hn).2
  have hout := (List.mem_filter.mp hn').2
  rw [decide_eq_true_eq] at hin hout
  exact hout hin

end ReportOn

/-- `r` is the report on the history `E` against the declared names `D`, for so many files. -/
structure Report.Tells (r : Report) (E : List Call) (D : Finset String) (files : Nat) :
    Prop where
  /-- The called names that are declared, by first occurrence, each with its locations in order. -/
  internal_eq : r.internal = ((History.names E).filter (· ∈ D)).map (History.entry E)
  /-- The called names that are not declared, in the same way. -/
  external_eq : r.external = ((History.names E).filter (· ∉ D)).map (History.entry E)
  total_eq : r.total = E.length
  declarations_eq : r.declarations = D.card
  files_eq : r.files = files
  disjoint : ∀ e ∈ r.internal, ∀ e' ∈ r.external, e.name ≠ e'.name
  located : ∀ e ∈ r.internal ++ r.external, e.locations ≠ #[]
  /-- A declared name that is not called is on neither side. -/
  uncalled : ∀ n ∈ D, (∀ c ∈ E, c.name ≠ n) → ∀ e ∈ r.internal ++ r.external, e.name ≠ n

/-- **The report on a tree.** It tells the calls of all files, one file after the other, against
the names that any of the files declares. -/
theorem tells_reportOn (keywords : Keywords) (files : List (String × List Char)) :
    (reportOn keywords files).Tells (callsIn keywords files) (declaredIn keywords files)
      files.length := by
  have hsums := Findings.sums_ofFiles keywords files
  constructor
  · exact internal_reportOn keywords files
  · exact external_reportOn keywords files
  · exact total_reportOn keywords files
  · exact NameSet.size_eq_card hsums.declarations
  · exact hsums.files
  · intro e he e' he'
    exact name_ne_of_mem_reportOn keywords files he he'
  · intro e he hnone
    obtain ⟨n, hn, rfl⟩ := exists_entry_of_mem_reportOn keywords files he
    exact History.locations_eq_nil_iff.mp (Array.toArray_eq.mp hnone) hn
  · intro n _ huncalled e he heq
    obtain ⟨m, hm, rfl⟩ := exists_entry_of_mem_reportOn keywords files he
    obtain ⟨c, hc, hname⟩ := History.mem_names.mp hm
    exact huncalled c hc (hname.trans heq)

end CallSites
