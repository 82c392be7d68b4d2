import Mathlib.Data.List.Induction
import Mathlib.Data.List.Nodup
import CallSites.Record

/-!
# What a record knows of a history

A *history* is a list of calls in the order in which they were made. A record keeps it grouped: the
called names by first occurrence, and the locations of each name in order. How the calls of
different names alternated is forgotten, so a record is compared with a history through these two
views only.

Records are changed by adding locations of one name. `Record.Shows` describes a record by its names
and by a function giving the locations of each, and both a single call and the merging of a whole
record are read off from what one such addition does to the description.
-/

namespace CallSites

/-! ## First occurrences -/

theorem nodup_eraseDups (l : List String) : l.eraseDups.Nodup := by
  match l with
  | [] => exact .nil
  | a :: l =>
    have hlt : (l.filter fun b ↦ !b == a).length < l.length + 1 :=
      Nat.lt_succ_of_le (List.length_filter_le _ l)
    rw [List.eraseDups_cons, List.nodup_cons]
    refine ⟨?_, nodup_eraseDups _⟩
    simp
termination_by l.length

/-- A selection by name keeps the order of first occurrences. -/
theorem eraseDups_filter (p : String → Bool) (l : List String) :
    (l.filter p).eraseDups = l.eraseDups.filter p := by
  match l with
  | [] => rfl
  | a :: l =>
    have hlt : (l.filter fun b ↦ !b == a).length < l.length + 1 :=
      Nat.lt_succ_of_le (List.length_filter_le _ l)
    have ih := eraseDups_filter p (l.filter fun b ↦ !b == a)
    rw [List.filter_comm] at ih
    rw [List.eraseDups_cons]
    by_cases ha : p a
    · rw [List.filter_cons_of_pos ha, List.filter_cons_of_pos ha, List.eraseDups_cons, ih]
    · rw [List.filter_cons_of_neg ha, List.filter_cons_of_neg ha, ← ih, List.filter_filter]
      congr 1
      refine List.filter_congr fun b _ ↦ ?_
      by_cases hb : b = a
      · simp [hb, ha]
      · simp [hb]
termination_by l.length

/-! ## Histories -/

namespace History

/-- The called names, each where it is called first. -/
def names (calls : List Call) : List String :=
  (calls.map (·.name)).eraseDups

/-- The places a name is called from. -/
def locations (calls : List Call) (name : String) : List Location :=
  (calls.filter fun c ↦ decide (c.name = name)).map (·.location)

/-- A name with the places it is called from. -/
def entry (calls : List Call) (name : String) : Entry where
  name
  locations := (locations calls name).toArray

/-- The history by names. -/
def entries (calls : List Call) : List Entry :=
  (names calls).map (entry calls)

theorem nodup_names (calls : List Call) : (names calls).Nodup :=
  nodup_eraseDups _

theorem mem_names {calls : List Call} {name : String} :
    name ∈ names calls ↔ ∃ c ∈ calls, c.name = name := by
  rw [names, List.mem_eraseDups, List.mem_map]

theorem names_append (calls more : List Call) :
    names (calls ++ more) =
      names calls ++ (names more).filter fun n ↦ decide (n ∉ names calls) := by
  rw [names, List.map_append, List.eraseDups_append, List.removeAll, eraseDups_filter]
  congr 2
  funext n
  rw [names, List.elem_eq_mem, decide_not, decide_eq_decide.mpr List.mem_eraseDups]

theorem locations_append (calls more : List Call) (name : String) :
    locations (calls ++ more) name = locations calls name ++ locations more name := by
  rw [locations, List.filter_append, List.map_append]
  rfl

theorem locations_eq_nil_iff {calls : List Call} {name : String} :
    locations calls name = [] ↔ name ∉ names calls := by
  rw [locations, List.map_eq_nil_iff, List.filter_eq_nil_iff, mem_names]
  simp

end History

/-! ## Records -/

namespace Record

/-- `r` has the given names in this order, each with the given locations, and knows the position of
each. -/
structure Shows (r : Record) (names : List String) (locations : String → List Location) :
    Prop where
  entries_eq : r.entries.toList = names.map fun n ↦ ⟨n, (locations n).toArray⟩
  index_eq : ∀ n, r.index[n]? = names.idxOf? n
  nodup : names.Nodup
  absent : ∀ n, n ∉ names → locations n = []

theorem shows_empty : (∅ : Record).Shows [] fun _ ↦ [] where
  entries_eq := rfl
  index_eq := fun _ ↦ Std.HashMap.getElem?_empty
  nodup := .nil
  absent := fun _ _ ↦ rfl

/-- Changing one entry in place, where each name stands once. -/
theorem modify_map_idxOf? {names : List String} (hnodup : names.Nodup) {name : String} {i : Nat}
    (hi : names.idxOf? name = some i) (entry : String → Entry) (f : Entry → Entry) :
    (names.map entry).modify i f =
      names.map fun n ↦ if n = name then f (entry n) else entry n := by
  induction names generalizing i with
  | nil => simp at hi
  | cons m names ih =>
    obtain ⟨hm, hnodup⟩ := List.nodup_cons.mp hnodup
    rw [List.idxOf?_cons] at hi
    by_cases heq : m = name
    · subst heq
      rw [if_pos (beq_self_eq_true m), Option.some_inj] at hi
      subst hi
      rw [List.map_cons, List.modify_zero_cons, List.map_cons, if_pos rfl]
      congr 1
      refine List.map_congr_left fun n hn ↦ ?_
      rw [if_neg]
      rintro rfl
      exact hm hn
    · rw [if_neg (by simpa using heq), Option.map_eq_some_iff] at hi
      obtain ⟨j, hj, rfl⟩ := hi
      rw [List.map_cons, List.modify_succ_cons, ih hnodup hj, List.map_cons, if_neg heq]

theorem idxOf?_concat {names : List String} {name : String} (hname : name ∉ names) (n : String) :
    (names ++ [name]).idxOf? n = if name = n then some names.length else names.idxOf? n := by
  induction names with
  | nil => simp [List.idxOf?_cons]
  | cons m names ih =>
    rw [List.mem_cons, not_or] at hname
    rw [List.cons_append, List.idxOf?_cons, List.idxOf?_cons, ih hname.2, List.length_cons]
    by_cases hn : name = n
    · subst hn
      simp [Ne.symm hname.1]
    · rw [if_neg hn, if_neg hn]

variable {r s : Record} {names names' : List String} {locations locations' : String → List Location}

theorem Shows.of_eq (h : r.Shows names locations) (hnames : names = names')
    (hlocations : ∀ n, locations n = locations' n) : r.Shows names' locations' := by
  obtain rfl := hnames
  obtain rfl : locations = locations' := funext hlocations
  exact h

/-- **Further locations of one name.** They go behind those it has, and a new name goes behind the
others. -/
theorem Shows.extend (h : r.Shows names locations) (name : String) (more : List Location) :
    (r.extend name more.toArray).Shows (if name ∈ names then names else names ++ [name])
      fun n ↦ if n = name then locations n ++ more else locations n := by
  have hsize : r.entries.size = names.length := by
    rw [← Array.length_toList, h.entries_eq, List.length_map]
  by_cases hname : name ∈ names
  · -- a name that has an entry: the entry grows where it stands
    obtain ⟨i, hi⟩ := Option.isSome_iff_exists.mp (List.isSome_idxOf?.mpr hname)
    rw [Record.extend, h.index_eq, hi, if_pos hname]
    refine ⟨?_, h.index_eq, h.nodup, fun n hn ↦ ?_⟩
    · rw [Array.toList_modify, h.entries_eq, modify_map_idxOf? h.nodup hi]
      refine List.map_congr_left fun n _ ↦ ?_
      by_cases hn : n = name
      · rw [if_pos hn, if_pos hn, List.append_toArray]
      · rw [if_neg hn, if_neg hn]
    · rw [if_neg, h.absent n hn]
      rintro rfl
      exact hn hname
  · -- a new name: its entry goes last, at the position the index notes for it
    rw [Record.extend, h.index_eq, List.idxOf?_eq_none_iff.mpr hname, if_neg hname]
    refine ⟨?_, fun n ↦ ?_, ?_, fun n hn ↦ ?_⟩
    · rw [Array.toList_push, h.entries_eq, List.map_append, List.map_singleton, if_pos rfl,
        h.absent name hname, List.nil_append]
      congr 1
      refine List.map_congr_left fun n hn ↦ ?_
      rw [if_neg]
      rintro rfl
      exact hname hn
    · rw [Std.HashMap.getElem?_insert, idxOf?_concat hname, h.index_eq, hsize]
      simp only [beq_iff_eq]
    · rw [List.nodup_append_comm]
      exact List.nodup_cons.mpr ⟨hname, h.nodup⟩
    · rw [List.mem_append, List.mem_singleton, not_or] at hn
      rw [if_neg hn.2, h.absent n hn.1]

/-- Adding entry after entry, each of another name. -/
theorem Shows.foldl_extend {others : List String} (hothers : others.Nodup)
    (more : String → List Location) (h : r.Shows names locations) :
    ((others.map fun n ↦ (⟨n, (more n).toArray⟩ : Entry)).foldl
        (fun r e ↦ r.extend e.name e.locations) r).Shows
      (names ++ others.filter fun n ↦ decide (n ∉ names))
      fun n ↦ if n ∈ others then locations n ++ more n else locations n := by
  induction others generalizing r names locations with
  | nil => simpa using h
  | cons m others ih =>
    obtain ⟨hm, hothers⟩ := List.nodup_cons.mp hothers
    rw [List.map_cons, List.foldl_cons]
    refine (ih hothers (h.extend m (more m))).of_eq ?_ fun n ↦ ?_
    · by_cases hmem : m ∈ names
      · rw [if_pos hmem, List.filter_cons_of_neg (by simpa using hmem)]
      · rw [if_neg hmem, List.filter_cons_of_pos (by simpa using hmem), List.append_assoc,
          List.singleton_append]
        congr 2
        -- `m` is known from here on, but does not come again
        refine List.filter_congr fun n hn ↦ ?_
        have hne : n ≠ m := by
          rintro rfl
          exact hm hn
        simp [hne]
    · by_cases hn : n = m
      · subst hn
        simp [hm]
      · simp [hn]

/-- **Merging.** The names of the other record that are new go behind, and its locations go behind
those of the same name. -/
theorem Shows.merge (hr : r.Shows names locations) (hs : s.Shows names' locations') :
    (r.merge s).Shows (names ++ names'.filter fun n ↦ decide (n ∉ names))
      fun n ↦ locations n ++ locations' n := by
  rw [Record.merge, ← Array.foldl_toList, hs.entries_eq]
  refine (hr.foldl_extend hs.nodup locations').of_eq rfl fun n ↦ ?_
  by_cases hn : n ∈ names'
  · rw [if_pos hn]
  · rw [if_neg hn, hs.absent n hn, List.append_nil]

/-- `r` is the record of the given history. -/
def Holds (r : Record) (calls : List Call) : Prop :=
  r.Shows (History.names calls) (History.locations calls)

theorem holds_empty : (∅ : Record).Holds [] :=
  shows_empty

theorem Holds.push {calls : List Call} (h : r.Holds calls) (c : Call) :
    (r.push c).Holds (calls ++ [c]) := by
  have hsingle : History.names [c] = [c.name] := by
    rw [History.names, List.map_singleton, List.eraseDups_cons]
    rfl
  refine (Shows.extend h c.name [c.location]).of_eq ?_ fun n ↦ ?_
  · rw [History.names_append, hsingle]
    by_cases hc : c.name ∈ History.names calls
    · rw [if_pos hc, List.filter_cons_of_neg (by simpa using hc), List.filter_nil, List.append_nil]
    · rw [if_neg hc, List.filter_cons_of_pos (by simpa using hc), List.filter_nil]
  · rw [History.locations_append]
    by_cases hn : n = c.name
    · simp [History.locations, hn]
    · simp [History.locations, hn, Ne.symm hn]

theorem holds_ofCalls (calls : List Call) : (ofCalls calls).Holds calls := by
  induction calls using List.reverseRecOn with
  | nil => exact holds_empty
  | append_singleton calls c ih =>
    rw [ofCalls, List.foldl_append]
    exact ih.push c

theorem Holds.merge {calls more : List Call} (hr : r.Holds calls) (hs : s.Holds more) :
    (r.merge s).Holds (calls ++ more) := by
  refine (Shows.merge hr hs).of_eq ?_ fun n ↦ ?_
  · exact (History.names_append calls more).symm
  · exact (History.locations_append calls more n).symm

theorem Holds.entries_eq {calls : List Call} (h : r.Holds calls) :
    r.entries.toList = History.entries calls :=
  Shows.entries_eq h

end Record

end CallSites
