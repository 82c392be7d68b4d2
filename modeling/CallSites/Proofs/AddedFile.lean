import CallSites.Proofs.FileOrder

/-!
# One more file

A file read between others moves first occurrences about and may change the side of a name, so the
two reports, with it and without it, are not compared position by position. What they share is
again the pair of a history and a set of declared names: the file's calls are inserted into the one
and its declarations join the other. Every name keeps the locations it had, in their order, with
those of the file in between, and a name can only come to be declared.
-/

namespace CallSites

variable {keywords : Keywords} {files A B : List (String × List Char)} {x : String × List Char}

/-! ## Entries and what they hold -/

theorem exists_entry_iff {name : String} :
    (∃ e ∈ (reportOn keywords files).internal ++ (reportOn keywords files).external,
      e.name = name) ↔ ∃ c ∈ callsIn keywords files, c.name = name := by
  simp only [List.mem_append, or_and_right, exists_or, exists_internal_iff, exists_external_iff]
  rw [← and_or_left]
  exact and_iff_left (em _)

/-- An entry holds all that the report has on its name. -/
theorem toList_locations_of_mem_reportOn {e : Entry}
    (he : e ∈ (reportOn keywords files).internal ++ (reportOn keywords files).external) :
    e.locations.toList = (reportOn keywords files).locationsOf e.name := by
  obtain ⟨n, -, rfl⟩ := exists_entry_of_mem_reportOn keywords files he
  rw [locationsOf_eq_locations]
  rfl

/-! ## The history and the declared names with one more file -/

theorem mem_callsIn_of_mem {c : Call} (hc : c ∈ callsIn keywords (A ++ B)) :
    c ∈ callsIn keywords (A ++ [x] ++ B) := by
  rw [callsIn, List.mem_flatMap] at hc ⊢
  obtain ⟨f, hf, hc⟩ := hc
  refine ⟨f, ?_, hc⟩
  rw [List.mem_append] at hf
  rw [List.append_assoc, List.mem_append, List.mem_append]
  exact hf.imp id .inr

theorem mem_declaredIn_insert {name : String} :
    name ∈ declaredIn keywords (A ++ [x] ++ B) ↔
      name ∈ declared keywords x.2 ∨ name ∈ declaredIn keywords (A ++ B) := by
  simp only [mem_declaredIn, List.mem_append, List.mem_singleton, or_and_right, exists_or,
    exists_eq_left]
  rw [or_assoc, or_left_comm]

/-- What the file adds to a name stands in one piece, between the files before it and behind it. -/
theorem exists_locationsOf_insert (keywords : Keywords) (A B : List (String × List Char))
    (x : String × List Char) (name : String) :
    ∃ before after,
      (reportOn keywords (A ++ [x] ++ B)).locationsOf name =
        before ++ ownLocations keywords name x ++ after ∧
      (reportOn keywords (A ++ B)).locationsOf name = before ++ after := by
  refine ⟨A.flatMap (ownLocations keywords name), B.flatMap (ownLocations keywords name), ?_, ?_⟩
  · rw [locationsOf_reportOn, List.flatMap_append, List.flatMap_append, List.flatMap_singleton]
  · rw [locationsOf_reportOn, List.flatMap_append]

/-! ## The two reports -/

/-- `r'` is `r` with what one more file brings: the locations it adds to each name, and the names it
declares. -/
structure Report.Grows (r r' : Report) (added : String → List Location) (declares : NameSet) :
    Prop where
  /-- A reported name stays reported, its locations among its new ones in their old order. -/
  kept : ∀ e ∈ r.internal ++ r.external, ∃ e' ∈ r'.internal ++ r'.external,
    e'.name = e.name ∧ e.locations.toList.Sublist e'.locations.toList
  internal_kept : ∀ e ∈ r.internal, ∃ e' ∈ r'.internal, e'.name = e.name
  moves_iff : ∀ e ∈ r.external, (∃ e' ∈ r'.internal, e'.name = e.name) ↔ e.name ∈ declares
  stays_iff : ∀ e ∈ r.external, (∃ e' ∈ r'.external, e'.name = e.name) ↔ e.name ∉ declares
  /-- The locations of a name are its old ones with the added ones in between. -/
  gained : ∀ e' ∈ r'.internal ++ r'.external, ∃ before after,
    e'.locations.toList = before ++ added e'.name ++ after ∧
      r.locationsOf e'.name = before ++ after

theorem exists_kept_insert {e : Entry}
    (he : e ∈ (reportOn keywords (A ++ B)).internal ++ (reportOn keywords (A ++ B)).external) :
    ∃ e' ∈ (reportOn keywords (A ++ [x] ++ B)).internal ++
        (reportOn keywords (A ++ [x] ++ B)).external,
      e'.name = e.name ∧ e.locations.toList.Sublist e'.locations.toList := by
  obtain ⟨c, hc, hname⟩ := exists_entry_iff.mp ⟨e, he, rfl⟩
  obtain ⟨e', he', hname'⟩ := exists_entry_iff.mpr ⟨c, mem_callsIn_of_mem (x := x) hc, hname⟩
  refine ⟨e', he', hname', ?_⟩
  obtain ⟨before, after, hnew, hold⟩ := exists_locationsOf_insert keywords A B x e.name
  rw [toList_locations_of_mem_reportOn he, toList_locations_of_mem_reportOn he', hname', hnew, hold]
  exact (List.sublist_append_left before _).append (List.Sublist.refl after)

/-- **One more file.** The report on `A ++ [x] ++ B` keeps every name and every location of the
report on `A ++ B`; a name moves from external to internal exactly if `x` declares it, and none
moves back; what is new among the locations are the calls of `x`. -/
theorem reportOn_insert (keywords : Keywords) (A B : List (String × List Char))
    (x : String × List Char) :
    (reportOn keywords (A ++ B)).Grows (reportOn keywords (A ++ [x] ++ B))
      (fun name ↦ History.locations (calls keywords x.1 x.2) name) (declared keywords x.2) := by
  -- a name with an entry on one side is called, with the file or without it
  have hcalled : ∀ {name : String}, (∃ c ∈ callsIn keywords (A ++ B), c.name = name) →
      ∃ c ∈ callsIn keywords (A ++ [x] ++ B), c.name = name := by
    rintro name ⟨c, hc, hname⟩
    exact ⟨c, mem_callsIn_of_mem hc, hname⟩
  constructor
  · intro e he
    exact exists_kept_insert he
  · intro e he
    obtain ⟨hc, hdeclared⟩ := exists_internal_iff.mp ⟨e, he, rfl⟩
    exact exists_internal_iff.mpr ⟨hcalled hc, mem_declaredIn_insert.mpr (.inr hdeclared)⟩
  · intro e he
    obtain ⟨hc, hdeclared⟩ := exists_external_iff.mp ⟨e, he, rfl⟩
    rw [exists_internal_iff, mem_declaredIn_insert, or_iff_left hdeclared]
    exact and_iff_right (hcalled hc)
  · intro e he
    obtain ⟨hc, hdeclared⟩ := exists_external_iff.mp ⟨e, he, rfl⟩
    rw [exists_external_iff, mem_declaredIn_insert, or_iff_left hdeclared]
    exact and_iff_right (hcalled hc)
  · intro e' he'
    rw [toList_locations_of_mem_reportOn he']
    exact exists_locationsOf_insert keywords A B x e'.name

end CallSites
