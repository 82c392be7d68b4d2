import CallSites.Proofs.Lines
import CallSites.Proofs.Merge

/-!
# Reading on from a line end

Calls are read line by line, so a text can be cut wherever a line ends and its two parts read by
themselves. What the second part calls is then found as it is in the whole text, only further down:
by as many lines as the first part has. An opened parenthesis, an unfinished literal or a backslash
at the end of the first part makes no difference to it.

The record of the whole text is the record of the first part with that of the second merged into it,
once all locations of the second are moved down. Moving them down does not touch the names, so the
moved record is the record of the moved calls, index included.
-/

namespace CallSites

open Text

/-! ## Cutting between lines -/

namespace Text

/-- A text without an unfinished line: it is empty or ends in a line feed. -/
def WholeLines (cs : List Char) : Prop :=
  cs = [] ∨ ∃ front, cs = front ++ ['\n']

theorem WholeLines.of_append_feed {line rest : List Char} (h : WholeLines (line ++ '\n' :: rest)) :
    WholeLines rest := by
  rcases h with hnil | ⟨front, hfront⟩
  · exact absurd hnil (List.append_ne_nil_of_right_ne_nil _ (List.cons_ne_nil _ _))
  · rcases List.eq_nil_or_concat' rest with rfl | ⟨rest, c, rfl⟩
    · exact .inl rfl
    · rw [← List.cons_append, ← List.append_assoc] at hfront
      obtain ⟨-, hlast⟩ := List.append_inj' hfront rfl
      exact .inr ⟨rest, by rw [hlast]⟩

/-- **A text may be cut where a line ends**, and each line feed before the cut has ended a line. -/
theorem lines_append {above : List Char} (h : WholeLines above) (below : List Char) :
    lines (above ++ below) = lines above ++ lines below ∧
      (lines above).length = above.count '\n' := by
  by_cases hfeed : '\n' ∈ above
  · obtain ⟨line, rest, habove, hline⟩ := List.eq_append_cons_of_mem hfeed
    have hlt : rest.length < above.length := by
      rw [habove, List.length_append, List.length_cons]
      omega
    rw [habove] at h ⊢
    obtain ⟨hlines, hlength⟩ := lines_append h.of_append_feed below
    rw [List.append_assoc, List.cons_append, lines_append_feed hline, lines_append_feed hline,
      hlines, List.length_cons, hlength, List.count_append, List.count_cons_self,
      List.count_eq_zero.mpr hline, Nat.zero_add]
    exact ⟨rfl, rfl⟩
  · rcases h with rfl | ⟨front, rfl⟩
    · rw [lines_nil]
      exact ⟨rfl, rfl⟩
    · exact absurd (List.mem_append_right front List.mem_cons_self) hfeed
termination_by above.length
decreasing_by exact hlt

end Text

/-! ## Moving down -/

/-- The location so many lines further down. -/
def Location.down (k : Nat) (l : Location) : Location :=
  { l with line := l.line + k }

/-- The call so many lines further down. -/
def Call.down (k : Nat) (c : Call) : Call :=
  { c with location := c.location.down k }

/-- The entry with all its locations so many lines further down. -/
def Entry.down (k : Nat) (e : Entry) : Entry :=
  { e with locations := e.locations.map (·.down k) }

/-- The record with all its locations so many lines further down. -/
def Record.down (k : Nat) (r : Record) : Record :=
  { r with entries := r.entries.map (·.down k) }

namespace Record

theorem down_empty (k : Nat) : (∅ : Record).down k = ∅ := by
  have hentries : (#[] : Array Entry).map (·.down k) = #[] := Array.map_empty
  calc (∅ : Record).down k = { entries := (#[] : Array Entry).map (·.down k), index := ∅ } := rfl
    _ = ∅ := by rw [hentries]; rfl

theorem down_extend (k : Nat) (r : Record) (name : String) (more : Array Location) :
    (r.extend name more).down k = (r.down k).extend name (more.map (·.down k)) := by
  cases hname : r.index[name]? with
  | some i =>
    have hname' : (r.down k).index[name]? = some i := hname
    simp only [extend, hname, hname']
    rw [down, mk.injEq]
    refine ⟨?_, rfl⟩
    apply Array.ext_getElem?
    intro j
    simp only [down, Array.getElem?_map, Array.getElem?_modify]
    by_cases hij : i = j
    · simp [hij, Function.comp_def, Entry.down]
    · simp [hij]
  | none =>
    have hname' : (r.down k).index[name]? = none := hname
    simp only [extend, hname, hname']
    simp [down, Entry.down]

theorem down_foldl_push (k : Nat) (calls : List Call) (r : Record) :
    (calls.foldl push r).down k = (calls.map (·.down k)).foldl push (r.down k) := by
  induction calls generalizing r with
  | nil => rfl
  | cons c calls ih =>
    have hpush : (r.push c).down k = (r.down k).push (c.down k) := by
      rw [push, down_extend, List.map_toArray, List.map_singleton]
      rfl
    rw [List.foldl_cons, ih, hpush, List.map_cons, List.foldl_cons]

/-- **The record of moved calls is the moved record.** -/
theorem down_ofCalls (k : Nat) (calls : List Call) :
    (ofCalls calls).down k = ofCalls (calls.map (·.down k)) := by
  rw [ofCalls, down_foldl_push, down_empty]
  rfl

end Record

/-! ## Calls below a line end -/

/-- Calls stand on lines of the text. -/
theorem line_of_mem_calls {keywords : Keywords} {file : String} {text : List Char} {c : Call}
    (h : c ∈ calls keywords file text) :
    0 < c.location.line ∧ c.location.line ≤ (lines text).length := by
  rw [calls, List.mem_flatMap] at h
  obtain ⟨⟨line, number⟩, hline, hcall⟩ := h
  obtain ⟨name, -, rfl⟩ := List.mem_map.mp hcall
  have hnumber := List.mem_zipIdx hline
  dsimp only
  omega

theorem calls_append_lines (keywords : Keywords) (file : String) {above : List Char}
    (h : WholeLines above) (below : List Char) :
    calls keywords file (above ++ below) =
      calls keywords file above ++
        (calls keywords file below).map (Call.down (above.count '\n')) := by
  obtain ⟨hlines, hlength⟩ := lines_append h below
  rw [calls, hlines, List.zipIdx_append, List.flatMap_append, hlength, Nat.add_comm 1,
    ← List.map_snd_add_zipIdx_eq_zipIdx, List.flatMap_map, calls, calls, List.map_flatMap]
  simp only [List.map_map]
  rfl

/-- **Lines are read independently.** Let a text be cut behind some whole lines. Its calls are those
above the cut and then those below it, each as far down as there are lines above; its record is the
record of the part above with the record of the part below merged into it, moved down as far; and
what is called below the cut is what the part below calls by itself. -/
theorem calls_below_whole_lines (keywords : Keywords) (file : String) (above below : List Char)
    (h : WholeLines above) :
    calls keywords file (above ++ below) =
        calls keywords file above ++
          (calls keywords file below).map (Call.down (above.count '\n')) ∧
      (FileFindings.ofText keywords file (above ++ below)).calls =
        (FileFindings.ofText keywords file above).calls.merge
          ((FileFindings.ofText keywords file below).calls.down (above.count '\n')) ∧
      (calls keywords file (above ++ below)).filter
          (fun c ↦ decide (above.count '\n' < c.location.line)) =
        (calls keywords file below).map (Call.down (above.count '\n')) := by
  have hcalls := calls_append_lines keywords file h below
  refine ⟨hcalls, ?_, ?_⟩
  · simp only [FileFindings.ofText]
    rw [Record.down_ofCalls, Record.merge_ofCalls, hcalls]
  · rw [hcalls, List.filter_append, List.filter_eq_nil_iff.mpr, List.nil_append,
      List.filter_eq_self]
    · intro c hc
      obtain ⟨c, hmem, rfl⟩ := List.mem_map.mp hc
      have hline := line_of_mem_calls hmem
      rw [decide_eq_true_eq, Call.down, Location.down]
      dsimp only
      omega
    · intro c hc
      have hline := line_of_mem_calls hc
      rw [(lines_append h []).2] at hline
      rw [decide_eq_true_eq]
      omega

/-- An opened list, and a literal that ends in a backslash before a carriage return. -/
def unfinishedLines : List Char :=
  ['f', '(', '\n', '"', '\\', '\r', '\n']

theorem calls_below_unfinishedLines :
    WholeLines unfinishedLines ∧
      calls default "a.c" (unfinishedLines ++ ['g', '(', ')', ';']) =
        calls default "a.c" unfinishedLines ++
          (calls default "a.c" ['g', '(', ')', ';']).map (Call.down 2) ∧
      (FileFindings.ofText default "a.c" (unfinishedLines ++ ['g', '(', ')', ';'])).calls =
        (FileFindings.ofText default "a.c" unfinishedLines).calls.merge
          ((FileFindings.ofText default "a.c" ['g', '(', ')', ';']).calls.down 2) := by
  have h : WholeLines unfinishedLines := .inr ⟨['f', '(', '\n', '"', '\\', '\r'], rfl⟩
  obtain ⟨hcalls, hrecord, -⟩ :=
    calls_below_whole_lines default "a.c" unfinishedLines ['g', '(', ')', ';'] h
  exact ⟨h, hcalls, hrecord⟩

end CallSites
