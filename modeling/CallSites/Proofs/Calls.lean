import CallSites.Report
import CallSites.Proofs.Invocation

/-!
# Which calls are recorded

Reading a line either jumps over an invocation, when it is a statement, or goes on right behind its
opening parenthesis, when it is not; a statement is unfolded through all that is nested in it. What
this records is a plain selection from the list of invocations: those that are a statement or lie in
one.

Both the unfolding and the reading are compared with a `filter` of the sorted list. A sorted list is
determined by its members, so each step comes down to membership: where is an invocation that is
not the one just found?
-/

namespace CallSites

open Text

/-! ## Sorted lists of invocations -/

/-- Invocations by increasing start are determined by which they are. -/
theorem eq_of_sorted_of_mem_iff {l m : List Invocation}
    (hl : l.Pairwise fun i j ↦ i.start < j.start) (hm : m.Pairwise fun i j ↦ i.start < j.start)
    (h : ∀ i, i ∈ l ↔ i ∈ m) : l = m := by
  have hne : ∀ {i j : Invocation}, i.start < j.start → i ≠ j := fun hlt heq ↦ by
    rw [heq] at hlt
    exact Nat.lt_irrefl _ hlt
  -- the same members without repetition, so a permutation, and sorted either way
  have hperm : l.Perm m := (List.perm_ext_iff_of_nodup (hl.imp hne) (hm.imp hne)).mpr h
  refine hperm.eq_of_pairwise (fun i j _ _ hij hji ↦ ?_) hl hm
  omega

/-- A selection that splits into its first member, a part before `bound` and a part from `bound` on
is listed in that order. -/
theorem filter_eq_cons_append {l : List Invocation} (hl : l.Pairwise fun i j ↦ i.start < j.start)
    {i : Invocation} (hi : i ∈ l) (bound : Nat) {p q r : Invocation → Bool}
    (hp : ∀ x ∈ l, p x ↔ x = i ∨ q x ∨ r x) (hbound : i.start < bound)
    (hq : ∀ x, q x → i.start < x.start ∧ x.start < bound) (hr : ∀ x, r x → bound ≤ x.start) :
    l.filter p = i :: (l.filter q ++ l.filter r) := by
  refine eq_of_sorted_of_mem_iff (hl.filter p) ?_ fun x ↦ ?_
  · refine List.pairwise_cons.mpr ⟨fun x hx ↦ ?_, List.pairwise_append.mpr
      ⟨hl.filter q, hl.filter r, fun x hx y hy ↦ ?_⟩⟩
    · rcases List.mem_append.mp hx with hx | hx
      · exact (hq x (List.mem_filter.mp hx).2).1
      · exact hbound.trans_le (hr x (List.mem_filter.mp hx).2)
    · exact (hq x (List.mem_filter.mp hx).2).2.trans_le (hr y (List.mem_filter.mp hy).2)
  · rw [List.mem_cons, List.mem_append, List.mem_filter, List.mem_filter, List.mem_filter]
    constructor
    · rintro ⟨hx, hpx⟩
      exact ((hp x hx).mp hpx).imp id (Or.imp (⟨hx, ·⟩) (⟨hx, ·⟩))
    · rintro (rfl | ⟨hx, hqx⟩ | ⟨hx, hrx⟩)
      · exact ⟨hi, (hp x hi).mpr (.inl rfl)⟩
      · exact ⟨hx, (hp x hx).mpr (.inr (.inl hqx))⟩
      · exact ⟨hx, (hp x hx).mpr (.inr (.inr hrx))⟩

namespace Index.WellFormed

variable {ix : Index}

/-- **A forest lists its window.** -/
theorem preorder_forest (hix : ix.WellFormed) (origin limit : Nat) :
    (ix.forest origin limit).preorder =
      ix.invocations.filter fun x ↦ decide (origin ≤ x.start ∧ x.stop ≤ limit) := by
  fun_induction Index.forest ix origin limit with
  | case1 origin limit hnone =>
    rw [Forest.preorder, eq_comm, List.filter_eq_nil_iff]
    intro x hx
    rw [decide_eq_true_eq]
    exact not_mem_window_of_next hnone x hx
  | case2 origin limit i hsome ihinside ihbehind =>
    obtain ⟨hi, hfirst⟩ := hix.of_next hsome
    have hstart := Index.le_start_of_next hsome
    have hstop := Index.stop_le_of_next hsome
    have hoff := i.offsets_lt
    rw [Forest.preorder, ihinside, ihbehind]
    symm
    refine filter_eq_cons_append hix.sorted hi i.stop (fun x hx ↦ ?_) (by omega)
      (fun x hq ↦ ?_) fun x hr ↦ ?_
    · rw [decide_eq_true_eq, decide_eq_true_eq, decide_eq_true_eq]
      constructor
      · rintro ⟨hxstart, hxstop⟩
        rcases hfirst x hx hxstart hxstop with rfl | ⟨hpast, hbehind | hinside⟩
        · exact .inl rfl
        · exact .inr (.inr ⟨hbehind, hxstop⟩)
        · exact .inr (.inl ⟨hpast, hinside⟩)
      · rintro (rfl | hinside | hbehind) <;> omega
    · rw [decide_eq_true_eq] at hq
      have hxoff := x.offsets_lt
      omega
    · rw [decide_eq_true_eq] at hr
      exact hr.1

end Index.WellFormed

/-! ## Statements -/

/-- `x` is a statement that starts at or after `origin`, or lies in one. -/
def Index.Captured (ix : Index) (origin : Nat) (x : Invocation) : Prop :=
  ∃ s ∈ ix.invocations, origin ≤ s.start ∧ ix.followedBy s ';' ∧ s.start ≤ x.start ∧ x.stop ≤ s.stop

instance (ix : Index) (origin : Nat) (x : Invocation) : Decidable (ix.Captured origin x) :=
  inferInstanceAs (Decidable (∃ s ∈ ix.invocations, _))

namespace Index.WellFormed

variable {ix : Index}

/-- Passing over an invocation that is no statement loses nothing. -/
theorem captured_congr (hix : ix.WellFormed) {origin : Nat} {i : Invocation}
    (h : ix.next origin ix.size = some i) (hi : ¬ix.followedBy i ';') (x : Invocation) :
    ix.Captured (i.lparen + 1) x ↔ ix.Captured origin x := by
  have hstart := Index.le_start_of_next h
  have hlparen := i.start_lt
  constructor
  · rintro ⟨s, hs, hsstart, hsemi, hwithin⟩
    exact ⟨s, hs, by omega, hsemi, hwithin⟩
  · rintro ⟨s, hs, hsstart, hsemi, hwithin⟩
    rcases (hix.of_next h).2 s hs hsstart (hix.stop_le s hs) with rfl | ⟨hpast, -⟩
    · exact absurd hsemi hi
    · exact ⟨s, hs, hpast, hsemi, hwithin⟩

/-- Of what is captured from a statement on, there is the statement, what lies between its
parentheses, and what is captured behind it. -/
theorem captured_iff (hix : ix.WellFormed) {origin : Nat} {i : Invocation}
    (h : ix.next origin ix.size = some i) (hi : ix.followedBy i ';') {x : Invocation}
    (hx : x ∈ ix.invocations) :
    ix.Captured origin x ↔
      x = i ∨ (i.lparen + 1 ≤ x.start ∧ x.stop ≤ i.rparen) ∨ ix.Captured i.stop x := by
  obtain ⟨hmem, hfirst⟩ := hix.of_next h
  have hstart := Index.le_start_of_next h
  have hoff := i.offsets_lt
  have hxoff := x.offsets_lt
  constructor
  · rintro ⟨s, hs, hsstart, hsemi, hle, hle'⟩
    rcases hfirst x hx (by omega) (hix.stop_le x hx) with rfl | ⟨hpast, hbehind | hinside⟩
    · exact .inl rfl
    · -- behind `i`: so is the statement it lies in, for that cannot reach across
      rcases hfirst s hs hsstart (hix.stop_le s hs) with rfl | ⟨-, hsbehind | hsinside⟩
      · omega
      · exact .inr (.inr ⟨s, hs, hsbehind, hsemi, hle, hle'⟩)
      · omega
    · exact .inr (.inl ⟨hpast, hinside⟩)
  · rintro (rfl | ⟨hpast, hinside⟩ | ⟨s, hs, hsstart, hsemi, hwithin⟩)
    · exact ⟨x, hx, hstart, hi, Nat.le_refl _, Nat.le_refl _⟩
    · exact ⟨i, hmem, hstart, hi, by omega, by omega⟩
    · exact ⟨s, hs, by omega, hsemi, hwithin⟩

/-- **Reading a line selects what is captured.** -/
theorem statementsFrom_eq_filter (hix : ix.WellFormed) (origin : Nat) :
    ix.statementsFrom origin = ix.invocations.filter fun x ↦ decide (ix.Captured origin x) := by
  fun_induction Index.statementsFrom ix origin with
  | case1 origin hnone =>
    rw [eq_comm, List.filter_eq_nil_iff]
    intro x hx
    rw [decide_eq_true_eq]
    rintro ⟨s, hs, hsstart, -⟩
    exact not_mem_window_of_next hnone s hs ⟨hsstart, hix.stop_le s hs⟩
  | case2 origin i hsome hsemi ih =>
    have hoff := i.offsets_lt
    rw [ih, Index.inside, hix.preorder_forest]
    symm
    refine filter_eq_cons_append hix.sorted (hix.of_next hsome).1 i.stop (fun x hx ↦ ?_) (by omega)
      (fun x hq ↦ ?_) fun x hr ↦ ?_
    · rw [decide_eq_true_eq, decide_eq_true_eq, decide_eq_true_eq]
      exact hix.captured_iff hsome hsemi hx
    · rw [decide_eq_true_eq] at hq
      have hxoff := x.offsets_lt
      omega
    · rw [decide_eq_true_eq] at hr
      obtain ⟨s, -, hsstart, -, hle, -⟩ := hr
      omega
  | case3 origin i hsome hsemi ih =>
    rw [ih]
    refine List.filter_congr fun x _ ↦ ?_
    rw [decide_eq_decide]
    exact hix.captured_congr hsome hsemi x

end Index.WellFormed

/-! ## Calls -/

/-- `found` lists the invocations of a line that are a statement or lie in one, each once, by
increasing start. -/
structure Captures (line : List Char) (found : List Invocation) : Prop where
  sorted : found.Pairwise fun i j ↦ i.start < j.start
  mem_iff : ∀ i, i ∈ found ↔ i.Occurs line ∧
    ∃ s : Invocation, s.Occurs line ∧ s.FollowedBy line ';' ∧ s.start ≤ i.start ∧ i.stop ≤ s.stop

theorem captures_statementsFrom (line : List Char) :
    Captures line ((Index.ofText line).statementsFrom 0) := by
  have hix := Index.wellFormed_ofText line
  rw [hix.statementsFrom_eq_filter]
  refine ⟨hix.sorted.filter _, fun i ↦ ?_⟩
  rw [List.mem_filter, mem_invocations, decide_eq_true_eq]
  refine and_congr_right fun _ ↦ ?_
  constructor
  · rintro ⟨s, hs, -, hsemi, hwithin⟩
    rw [mem_invocations] at hs
    exact ⟨s, hs, (hs.followedBy_iff (by decide)).mp hsemi, hwithin⟩
  · rintro ⟨s, hs, hsemi, hwithin⟩
    exact ⟨s, mem_invocations.mpr hs, Nat.zero_le _, (hs.followedBy_iff (by decide)).mpr hsemi,
      hwithin⟩

theorem isCallable_eq (keywords : Keywords) (name : String) :
    isCallable keywords name = decide (name ∉ keywords.words ∧ name ∉ typeOperators) := by
  rw [isCallable, Keywords.contains, isTypeOperator, Bool.decide_and, decide_not, decide_not,
    List.contains_eq_mem, List.contains_eq_mem]

theorem calledOn_eq (keywords : Keywords) (line : List Char) :
    calledOn keywords line =
      (((Index.ofText line).statementsFrom 0).filter fun i ↦
        decide (i.name ∉ keywords.words ∧ i.name ∉ typeOperators)).map (·.name) := by
  rw [calledOn, List.filter_map]
  congr 2
  funext i
  exact isCallable_eq keywords i.name

/-- **The calls of a text.** They are, line by line, the captured invocations whose names are
neither excluded nor type operators; a file's record is made of these calls, in this order. -/
theorem calls_eq_captured (keywords : Keywords) (file : String) (text : List Char) :
    ∃ captured : List Char → List Invocation, (∀ line, Captures line (captured line)) ∧
      calls keywords file text = ((lines text).zipIdx 1).flatMap (fun (line, number) ↦
        ((captured line).filter fun i ↦
            decide (i.name ∉ keywords.words ∧ i.name ∉ typeOperators)).map fun i ↦
          { name := i.name, location := { file, line := number } }) ∧
      (FileFindings.ofText keywords file text).calls = .ofCalls (calls keywords file text) := by
  refine ⟨fun line ↦ (Index.ofText line).statementsFrom 0, captures_statementsFrom, ?_, rfl⟩
  simp only [calls, calledOn_eq, List.map_map]
  rfl

end CallSites
