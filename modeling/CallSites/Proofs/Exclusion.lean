import Mathlib.Data.List.Sort
import CallSites.Proofs.Calls
import CallSites.Proofs.Declared
import CallSites.Proofs.Report

/-!
# Excluded names

Excluding a name takes its calls and its definition out of a report and does nothing else. No search
looks at the excluded names: they are struck out of what a search has found. So a longer list of
excluded names strikes more out of the same findings, and what is left to show is that striking out
by name passes through grouping, through the merging of files and through the filing of names as
internal or external.

That a name keeps its side needs a word: the declared names shrink too, but only by excluded ones.
-/

namespace CallSites

variable {K K' : List String}

/-! ## Selections from a history -/

namespace History

variable (p : String → Bool) (calls : List Call)

theorem names_filter : names (calls.filter fun c ↦ p c.name) = (names calls).filter p := by
  have hmap : (calls.filter fun c ↦ p c.name).map (·.name) = (calls.map (·.name)).filter p := by
    rw [List.filter_map]
    rfl
  rw [names, hmap, eraseDups_filter, names]

theorem entry_filter {name : String} (hname : p name) :
    entry (calls.filter fun c ↦ p c.name) name = entry calls name := by
  rw [entry, entry, locations, locations, List.filter_filter]
  congr 3
  apply List.filter_congr
  intro c _
  by_cases hc : c.name = name
  · simp [hc, hname]
  · simp [hc]

/-- Filing commutes with a selection that keeps what is filed differently out. -/
theorem map_entry_filter {side side' : String → Bool} (hside : ∀ n, p n → side' n = side n) :
    ((names (calls.filter fun c ↦ p c.name)).filter side').map
        (entry (calls.filter fun c ↦ p c.name)) =
      (((names calls).filter side).map (entry calls)).filter fun e ↦ p e.name := by
  rw [names_filter, List.filter_map, List.filter_filter, List.filter_filter]
  have hfilter : (names calls).filter (fun n ↦ side' n && p n) =
      (names calls).filter fun n ↦ p n && side n := by
    apply List.filter_congr
    intro n _
    by_cases hn : p n
    · rw [hside n hn, Bool.and_comm]
    · simp [hn]
  rw [hfilter]
  apply List.map_congr_left
  intro n hn
  have hpn := (List.mem_filter.mp hn).2
  rw [Bool.and_eq_true] at hpn
  exact entry_filter p calls hpn.1

end History

/-! ## Calls and declarations -/

theorem isCallable_append (name : String) :
    isCallable ⟨K ++ K'⟩ name = (decide (name ∉ K') && isCallable ⟨K⟩ name) := by
  rw [isCallable_eq, isCallable_eq, ← Bool.decide_and, decide_eq_decide, List.mem_append]
  tauto

theorem calledOn_append (line : List Char) :
    calledOn ⟨K ++ K'⟩ line = (calledOn ⟨K⟩ line).filter fun n ↦ decide (n ∉ K') := by
  rw [calledOn, calledOn, List.filter_filter]
  apply List.filter_congr
  intro n _
  exact isCallable_append n

theorem calls_append (file : String) (text : List Char) :
    calls ⟨K ++ K'⟩ file text =
      (calls ⟨K⟩ file text).filter fun c ↦ decide (c.name ∉ K') := by
  rw [calls, calls, List.filter_flatMap]
  apply List.flatMap_congr
  rintro ⟨line, number⟩ _
  simp only [calledOn_append, List.filter_map]
  rfl

theorem callsIn_append (files : List (String × List Char)) :
    callsIn ⟨K ++ K'⟩ files = (callsIn ⟨K⟩ files).filter fun c ↦ decide (c.name ∉ K') := by
  rw [callsIn, callsIn, List.filter_flatMap]
  apply List.flatMap_congr
  intro f _
  exact calls_append f.1 f.2

theorem isCallable_of_mem_callsIn {files : List (String × List Char)} {c : Call}
    (hc : c ∈ callsIn ⟨K⟩ files) : c.name ∉ K ∧ c.name ∉ typeOperators := by
  rw [callsIn, List.mem_flatMap] at hc
  obtain ⟨f, -, hc⟩ := hc
  rw [calls, List.mem_flatMap] at hc
  obtain ⟨⟨line, number⟩, -, hc⟩ := hc
  obtain ⟨name, hname, rfl⟩ := List.mem_map.mp hc
  have hcallable := (List.mem_filter.mp hname).2
  rw [isCallable_eq, decide_eq_true_eq] at hcallable
  exact hcallable

theorem mem_declared_append {text : List Char} {name : String} :
    name ∈ declared ⟨K ++ K'⟩ text ↔ name ∈ declared ⟨K⟩ text ∧ name ∉ K' := by
  rw [mem_declared, mem_declared, List.mem_append]
  tauto

theorem toList_declared_append (text : List Char) :
    (declared ⟨K ++ K'⟩ text).toList =
      (declared ⟨K⟩ text).toList.filter fun n ↦ decide (n ∉ K') := by
  apply (declared ⟨K ++ K'⟩ text).sorted.eq_of_mem_iff ((declared ⟨K⟩ text).sorted.filter _)
  intro n
  rw [List.mem_filter, decide_eq_true_eq]
  exact mem_declared_append

theorem mem_declaredIn_append {files : List (String × List Char)} {name : String} :
    name ∈ declaredIn ⟨K ++ K'⟩ files ↔ name ∈ declaredIn ⟨K⟩ files ∧ name ∉ K' := by
  simp only [mem_declaredIn, mem_declared_append]
  tauto

/-! ## Reports -/

section Report

variable (K K' : List String) (files : List (String × List Char))

theorem internal_reportOn_append :
    (reportOn ⟨K ++ K'⟩ files).internal =
      (reportOn ⟨K⟩ files).internal.filter fun e ↦ decide (e.name ∉ K') := by
  rw [internal_reportOn, internal_reportOn, callsIn_append]
  apply History.map_entry_filter fun n ↦ decide (n ∉ K')
  intro n hn
  rw [decide_eq_decide, mem_declaredIn_append]
  exact and_iff_left (of_decide_eq_true hn)

theorem external_reportOn_append :
    (reportOn ⟨K ++ K'⟩ files).external =
      (reportOn ⟨K⟩ files).external.filter fun e ↦ decide (e.name ∉ K') := by
  rw [external_reportOn, external_reportOn, callsIn_append]
  apply History.map_entry_filter fun n ↦ decide (n ∉ K')
  intro n hn
  rw [decide_eq_decide, mem_declaredIn_append]
  exact not_congr (and_iff_left (of_decide_eq_true hn))

/-- No excluded name and no operator on types is reported. -/
theorem name_not_mem_of_mem_reportOn {e : Entry}
    (he : e ∈ (reportOn ⟨K⟩ files).internal ++ (reportOn ⟨K⟩ files).external) :
    e.name ∉ K ∧ e.name ∉ typeOperators := by
  obtain ⟨n, hn, rfl⟩ := exists_entry_of_mem_reportOn ⟨K⟩ files he
  obtain ⟨c, hc, rfl⟩ := History.mem_names.mp hn
  exact isCallable_of_mem_callsIn hc

end Report

/-- **Exclusion only deletes.** With further excluded names each file declares what it declared
without them, less those names, and either side of the report is what it was without them, less the
entries of those names. No excluded name is declared or reported, and no operator on types is
reported. -/
theorem exclusion_only_deletes (K K' : List String) (files : List (String × List Char)) :
    (∀ f ∈ files, (FileFindings.ofText ⟨K ++ K'⟩ f.1 f.2).declarations.toList =
      (FileFindings.ofText ⟨K⟩ f.1 f.2).declarations.toList.filter fun n ↦ decide (n ∉ K')) ∧
    (reportOn ⟨K ++ K'⟩ files).internal =
      (reportOn ⟨K⟩ files).internal.filter (fun e ↦ decide (e.name ∉ K')) ∧
    (reportOn ⟨K ++ K'⟩ files).external =
      (reportOn ⟨K⟩ files).external.filter (fun e ↦ decide (e.name ∉ K')) ∧
    (∀ f ∈ files, ∀ n ∈ (FileFindings.ofText ⟨K⟩ f.1 f.2).declarations, n ∉ K) ∧
    ∀ e ∈ (reportOn ⟨K⟩ files).internal ++ (reportOn ⟨K⟩ files).external,
      e.name ∉ K ∧ e.name ∉ typeOperators := by
  refine ⟨?_, internal_reportOn_append K K' files, external_reportOn_append K K' files, ?_, ?_⟩
  · intro f _
    exact toList_declared_append f.2
  · intro f _ n hn
    exact (mem_declared.mp hn).1
  · intro e he
    exact name_not_mem_of_mem_reportOn K files he

end CallSites
