import CallSites.Proofs.Record

/-!
# Merging records

Merging takes the other record entry by entry, all locations of a name at once, while calls come one
by one with the names in any alternation. The record is the same either way: merging appends
histories.

The same is meant literally, index and all. The index changes only when a name is new, and then
notes the number of names before it, so it can be computed from the names in order; two records with
the same entries that were both made in this way are equal. Which positions the index holds is then
a fact about the names, and it is what keeps every look-up within the entries.
-/

namespace CallSites.Record

variable {r s t : Record} {calls : List Call}

/-! ## The index is made of the names -/

/-- The positions of names that come one after the other. -/
def positions (names : List String) : Std.HashMap String Nat :=
  names.zipIdx.foldl (fun index p ↦ index.insert p.1 p.2) ∅

theorem positions_concat (names : List String) (name : String) :
    positions (names ++ [name]) = (positions names).insert name names.length := by
  rw [positions, List.zipIdx_append, List.foldl_append, Nat.zero_add]
  rfl

/-- The index of `r` was written name by name. -/
def Indexed (r : Record) : Prop :=
  r.index = positions r.names

theorem indexed_empty : (∅ : Record).Indexed := rfl

theorem Indexed.extend (h : r.Indexed) (name : String) (more : Array Location) :
    (r.extend name more).Indexed := by
  rw [Indexed, names] at h ⊢
  cases hname : r.index[name]? with
  | some i =>
    simp only [Record.extend, hname]
    -- an entry that grows keeps its name
    have hnames : (r.entries.toList.modify i fun e ↦
        { e with locations := e.locations ++ more }).map (·.name) =
          r.entries.toList.map (·.name) := by
      apply List.ext_getElem?
      intro j
      rw [List.getElem?_map, List.getElem?_map, List.getElem?_modify]
      by_cases hij : i = j
      · simp [hij, Function.comp_def]
      · simp [hij]
    rw [Array.toList_modify, hnames]
    exact h
  | none =>
    simp only [Record.extend, hname]
    rw [Array.toList_push, List.map_append, List.map_singleton, positions_concat, ← h,
      List.length_map, Array.length_toList]

theorem Indexed.merge (h : r.Indexed) (s : Record) : (r.merge s).Indexed := by
  rw [Record.merge, ← Array.foldl_toList]
  induction s.entries.toList generalizing r with
  | nil => exact h
  | cons e entries ih => exact ih (h.extend e.name e.locations)

theorem indexed_ofCalls (calls : List Call) : (ofCalls calls).Indexed := by
  induction calls using List.reverseRecOn with
  | nil => exact indexed_empty
  | append_singleton calls c ih =>
    rw [ofCalls, List.foldl_append]
    exact ih.extend c.name #[c.location]

/-- A history determines the record. -/
theorem Indexed.eq_of_holds (hr : r.Indexed) (hs : s.Indexed) (h : r.Holds calls)
    (h' : s.Holds calls) : r = s := by
  have hentries : r.entries = s.entries := Array.ext' (h.entries_eq.trans h'.entries_eq.symm)
  have hindex : r.index = s.index := by
    rw [hr, hs, Record.names, Record.names, hentries]
  cases r
  cases s
  dsimp only at hentries hindex
  rw [hentries, hindex]

/-- **Merging appends histories.** -/
theorem merge_ofCalls (calls more : List Call) :
    (ofCalls calls).merge (ofCalls more) = ofCalls (calls ++ more) :=
  ((indexed_ofCalls calls).merge _).eq_of_holds (indexed_ofCalls _)
    ((holds_ofCalls calls).merge (holds_ofCalls more)) (holds_ofCalls _)

/-! ## Reachable records -/

/-- What can be made of the empty record by adding calls and by merging. -/
inductive Reachable : Record → Prop
  | empty : Reachable ∅
  | push {r : Record} (hr : Reachable r) (c : Call) : Reachable (r.push c)
  | merge {r s : Record} (hr : Reachable r) (hs : Reachable s) : Reachable (r.merge s)

theorem reachable_ofCalls (calls : List Call) : (ofCalls calls).Reachable := by
  induction calls using List.reverseRecOn with
  | nil => exact .empty
  | append_singleton calls c ih =>
    rw [ofCalls, List.foldl_append]
    exact ih.push c

/-- **A reachable record is the record of some history.** -/
theorem reachable_iff : r.Reachable ↔ ∃ calls, r = ofCalls calls := by
  constructor
  · intro hr
    induction hr with
    | empty => exact ⟨[], rfl⟩
    | push _ c ih =>
      obtain ⟨calls, rfl⟩ := ih
      refine ⟨calls ++ [c], ?_⟩
      rw [ofCalls, ofCalls, List.foldl_append]
      rfl
    | merge _ _ ihr ihs =>
      obtain ⟨calls, rfl⟩ := ihr
      obtain ⟨more, rfl⟩ := ihs
      exact ⟨calls ++ more, merge_ofCalls calls more⟩
  · rintro ⟨calls, rfl⟩
    exact reachable_ofCalls calls

/-! ## Positions and look-ups -/

/-- The names and the index of `r` agree, every name has a location, and a look-up finds the
locations of the name looked up. -/
structure Coherent (r : Record) : Prop where
  /-- The index holds the positions of the entries under their names, and nothing else. -/
  index_iff : ∀ n i, r.index[n]? = some i ↔ ∃ h : i < r.entries.size, r.entries[i].name = n
  names_nodup : r.names.Nodup
  located : ∀ e ∈ r.entries, 0 < e.locations.size
  get?_eq_some_iff : ∀ n found,
    r.get? n = some found ↔ ∃ e ∈ r.entries, e.name = n ∧ e.locations = found
  get?_eq_none_iff : ∀ n, r.get? n = none ↔ n ∉ r.names

section Shows

variable {names : List String} {locations : String → List Location}

theorem Shows.names_eq (h : r.Shows names locations) : r.names = names := by
  rw [Record.names, h.entries_eq, List.map_map]
  exact List.map_id names

theorem Shows.getElem?_entries (h : r.Shows names locations) (i : Nat) :
    r.entries[i]? = names[i]?.map fun n ↦ ⟨n, (locations n).toArray⟩ := by
  rw [← Array.getElem?_toList, h.entries_eq, List.getElem?_map]

theorem Shows.mem_entries (h : r.Shows names locations) {e : Entry} :
    e ∈ r.entries ↔ ∃ n ∈ names, ⟨n, (locations n).toArray⟩ = e := by
  rw [← Array.mem_toList_iff, h.entries_eq, List.mem_map]

theorem Shows.index_eq_some_iff (h : r.Shows names locations) {n : String} {i : Nat} :
    r.index[n]? = some i ↔ names[i]? = some n := by
  rw [h.index_eq, List.idxOf?_eq_some_iff, List.getElem?_eq_some_iff]
  constructor
  · rintro ⟨hi, hn, -⟩
    exact ⟨hi, hn⟩
  · rintro ⟨hi, hn⟩
    refine ⟨hi, hn, ?_⟩
    -- no earlier position holds the name, for it stands once
    intro j hj heq
    have hji : j = i := h.nodup.getElem_inj_iff.mp (heq.trans hn.symm)
    omega

theorem Shows.get?_eq (h : r.Shows names locations) (n : String) :
    r.get? n = if n ∈ names then some (locations n).toArray else none := by
  by_cases hn : n ∈ names
  · obtain ⟨i, hi⟩ := List.mem_iff_getElem?.mp hn
    simp [Record.get?, h.index_eq_some_iff.mpr hi, h.getElem?_entries, hi, hn]
  · simp [Record.get?, h.index_eq, List.idxOf?_eq_none_iff.mpr hn, hn]

theorem Shows.coherent (h : r.Shows names locations) (hlocated : ∀ n ∈ names, locations n ≠ []) :
    r.Coherent := by
  constructor
  · intro n i
    rw [h.index_eq_some_iff, ← h.names_eq, Record.names, List.getElem?_map, Array.getElem?_toList]
    simp only [Option.map_eq_some_iff, Array.getElem?_eq_some_iff]
    constructor
    · rintro ⟨e, ⟨hi, rfl⟩, hn⟩
      exact ⟨hi, hn⟩
    · rintro ⟨hi, hn⟩
      exact ⟨_, ⟨hi, rfl⟩, hn⟩
  · rw [h.names_eq]
    exact h.nodup
  · intro e he
    obtain ⟨n, hn, rfl⟩ := h.mem_entries.mp he
    exact List.length_pos_iff.mpr (hlocated n hn)
  · intro n found
    rw [h.get?_eq]
    simp only [h.mem_entries]
    by_cases hn : n ∈ names
    · simp [hn]
    · simp [hn]
  · intro n
    rw [h.get?_eq, h.names_eq]
    by_cases hn : n ∈ names
    · simp [hn]
    · simp [hn]

end Shows

/-- Between two steps of a merge, with some of the other record's entries added, a record is
coherent too. -/
theorem coherent_foldl_extend (calls more : List Call) {added : List Entry}
    (hadded : added <+: (ofCalls more).entries.toList) :
    (added.foldl (fun r e ↦ r.extend e.name e.locations) (ofCalls calls)).Coherent := by
  have hr : (ofCalls calls).Shows _ _ := holds_ofCalls calls
  -- what is added are the entries of the first so many names
  rw [(holds_ofCalls more).entries_eq, History.entries, List.prefix_iff_eq_take,
    ← List.map_take] at hadded
  generalize added.length = k at hadded
  subst hadded
  have hnodup := (History.nodup_names more).sublist (List.take_sublist k _)
  apply (hr.foldl_extend hnodup (History.locations more)).coherent
  intro n hn hnil
  have hold : n ∉ History.names calls := by
    intro hmem
    have hne : History.locations calls n ≠ [] := fun h ↦ History.locations_eq_nil_iff.mp h hmem
    split at hnil
    · exact hne (List.append_eq_nil_iff.mp hnil).1
    · exact hne hnil
  have hnew : n ∈ (History.names more).take k := by
    rcases List.mem_append.mp hn with hn | hn
    · exact absurd hn hold
    · exact (List.mem_filter.mp hn).1
  rw [if_pos hnew, List.append_eq_nil_iff] at hnil
  exact History.locations_eq_nil_iff.mp hnil.2 (List.mem_of_mem_take hnew)

/-! ## Main results -/

/-- **Merging is concatenation.** Merging the records of two histories gives the record of one
behind the other, which holds it; the reachable records are those of histories, and merging them is
associative with the empty record as identity. -/
theorem merge_as_append :
    (∀ calls more : List Call,
      (ofCalls calls).merge (ofCalls more) = ofCalls (calls ++ more) ∧
        (ofCalls (calls ++ more)).Holds (calls ++ more)) ∧
      (∀ r : Record, r.Reachable ↔ ∃ calls, r = ofCalls calls) ∧
      (∀ r : Record, r.Reachable → (∅ : Record).merge r = r ∧ r.merge ∅ = r) ∧
      ∀ r s t : Record, r.Reachable → s.Reachable → t.Reachable →
        (r.merge s).merge t = r.merge (s.merge t) := by
  refine ⟨fun calls more ↦ ⟨merge_ofCalls calls more, holds_ofCalls _⟩, fun r ↦ reachable_iff,
    ?_, ?_⟩
  · intro r hr
    obtain ⟨calls, rfl⟩ := reachable_iff.mp hr
    have hempty : (∅ : Record) = ofCalls [] := rfl
    rw [hempty, merge_ofCalls, merge_ofCalls, List.nil_append, List.append_nil]
    exact ⟨rfl, rfl⟩
  · intro r s t hr hs ht
    obtain ⟨calls, rfl⟩ := reachable_iff.mp hr
    obtain ⟨more, rfl⟩ := reachable_iff.mp hs
    obtain ⟨rest, rfl⟩ := reachable_iff.mp ht
    rw [merge_ofCalls, merge_ofCalls, merge_ofCalls, merge_ofCalls, List.append_assoc]

/-- **Reachable records are coherent**, and so is every record that a merge of two of them passes
through. So each look-up, in adding a call, in any step of a merge and in `get?`, stays within the
entries. -/
theorem coherent_of_reachable (r : Record) (hr : r.Reachable) :
    r.Coherent ∧ ∀ s : Record, s.Reachable → ∀ added, added <+: s.entries.toList →
      (added.foldl (fun r e ↦ r.extend e.name e.locations) r).Coherent := by
  obtain ⟨calls, rfl⟩ := reachable_iff.mp hr
  refine ⟨coherent_foldl_extend calls [] List.nil_prefix, ?_⟩
  intro s hs added hadded
  obtain ⟨more, rfl⟩ := reachable_iff.mp hs
  exact coherent_foldl_extend calls more hadded

/-- Two names that alternate. -/
def alternating : Record :=
  ofCalls [⟨"f", "a.c", 1⟩, ⟨"g", "a.c", 2⟩, ⟨"f", "a.c", 3⟩]

theorem coherent_alternating_merge_self :
    (alternating.merge alternating).Reachable ∧ (alternating.merge alternating).Coherent ∧
      (alternating.merge alternating).get? "f" =
        some #[⟨"a.c", 1⟩, ⟨"a.c", 3⟩, ⟨"a.c", 1⟩, ⟨"a.c", 3⟩] := by
  have h : (alternating.merge alternating).Reachable :=
    (reachable_ofCalls _).merge (reachable_ofCalls _)
  refine ⟨h, (coherent_of_reachable _ h).1, ?_⟩
  rw [alternating, merge_ofCalls, Shows.get?_eq (holds_ofCalls _)]
  decide

end CallSites.Record
