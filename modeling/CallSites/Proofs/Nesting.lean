import CallSites.Proofs.Calls

/-!
# The forest of invocations

Looking for the next invocation again and again, each time behind the last one found, lists
invocations that lie side by side; doing the same between the parentheses of each unfolds a text
into a forest. This forest is the order of containment. Its roots are the invocations that lie in no
other, and the parent of any other is the innermost one that holds it.

Each window of the search is opened by the invocation it unfolds, so the roots below a node are the
outermost ones of *its* window. That none of them has another invocation between itself and the node
is all that is left to say, and there the nesting of the pairs decides: two invocations that hold a
third are one inside the other.
-/

namespace CallSites

open Text

/-- `i` lies between the parentheses of `p`. -/
def Invocation.Within (i p : Invocation) : Prop :=
  p.lparen < i.start ∧ i.stop ≤ p.rparen

/-- `p` is the innermost invocation of `text` with `x` between its parentheses. -/
def Invocation.Innermost (p : Invocation) (text : List Char) (x : Invocation) : Prop :=
  p.Occurs text ∧ x.Occurs text ∧ x.Within p ∧
    ∀ q : Invocation, q.Occurs text → x.Within q → q = p ∨ p.Within q

/-! ## Nodes -/

namespace Forest

/-- `f` has a node `i` with the forest `below` under it. -/
inductive Node : Forest → Invocation → Forest → Prop
  | root (i : Invocation) (inside behind : Forest) : Node (cons i inside behind) i inside
  | inside {i root : Invocation} {below inside behind : Forest} :
      Node inside i below → Node (cons root inside behind) i below
  | behind {i root : Invocation} {below inside behind : Forest} :
      Node behind i below → Node (cons root inside behind) i below

/-- `x` stands directly under `p`. -/
def Child (f : Forest) (p x : Invocation) : Prop :=
  ∃ below, f.Node p below ∧ x ∈ below.roots

variable {f : Forest} {i p x : Invocation}

theorem exists_node_iff : (∃ below, f.Node i below) ↔ i ∈ f.preorder := by
  induction f with
  | nil =>
    constructor
    · rintro ⟨below, ⟨⟩⟩
    · intro h
      exact absurd h List.not_mem_nil
  | cons root inside behind ihinside ihbehind =>
    rw [preorder, List.mem_cons, List.mem_append, ← ihinside, ← ihbehind]
    constructor
    · rintro ⟨below, ⟨⟩ | h | h⟩
      · exact .inl rfl
      · exact .inr (.inl ⟨below, h⟩)
      · exact .inr (.inr ⟨below, h⟩)
    · rintro (rfl | ⟨below, h⟩ | ⟨below, h⟩)
      · exact ⟨inside, .root i inside behind⟩
      · exact ⟨below, .inside h⟩
      · exact ⟨below, .behind h⟩

/-- Every node is a root or stands under another. -/
theorem mem_roots_or_child (h : x ∈ f.preorder) : x ∈ f.roots ∨ ∃ p, f.Child p x := by
  induction f with
  | nil => exact absurd h List.not_mem_nil
  | cons root inside behind ihinside ihbehind =>
    rw [preorder, List.mem_cons, List.mem_append] at h
    rw [roots, List.mem_cons]
    rcases h with rfl | h | h
    · exact .inl (.inl rfl)
    · rcases ihinside h with hroot | ⟨p, below, hnode, hx⟩
      · exact .inr ⟨root, inside, .root root inside behind, hroot⟩
      · exact .inr ⟨p, below, .inside hnode, hx⟩
    · rcases ihbehind h with hroot | ⟨p, below, hnode, hx⟩
      · exact .inl (.inr hroot)
      · exact .inr ⟨p, below, .behind hnode, hx⟩

end Forest

/-! ## Searching side by side -/

/-- The invocations found by searching from `origin` on, each time behind the last one. -/
def Index.chain (ix : Index) (origin limit : Nat) : List Invocation :=
  match _h : ix.next origin limit with
  | none => []
  | some i => i :: ix.chain i.stop limit
termination_by limit - origin
decreasing_by
  have hstart := Index.le_start_of_next _h
  have hstop := Index.stop_le_of_next _h
  have hlt := i.lparen_lt
  have hlt' := i.start_lt
  omega

theorem Index.roots_forest (ix : Index) (origin limit : Nat) :
    (ix.forest origin limit).roots = ix.chain origin limit := by
  fun_induction Index.forest ix origin limit with
  | case1 origin limit hnone =>
    rw [Index.chain]
    split
    · rfl
    · rename_i i hsome
      exact absurd (hsome.symm.trans hnone) (Option.some_ne_none i)
  | case2 origin limit i hsome _ ihbehind =>
    rw [Forest.roots, ihbehind, Index.chain.eq_def ix origin]
    split
    · rename_i hnone
      exact absurd (hsome.symm.trans hnone) (Option.some_ne_none i)
    · rename_i j hj
      obtain rfl : i = j := Option.some_inj.mp (hsome.symm.trans hj)
      rfl

/-- What stands under a node is what is nested in it. -/
theorem Index.eq_inside_of_node {ix : Index} {origin limit : Nat} {p : Invocation} {below : Forest}
    (h : (ix.forest origin limit).Node p below) : below = ix.inside p := by
  fun_induction Index.forest ix origin limit with
  | case1 => obtain ⟨⟩ := h
  | case2 origin limit i hsome ihinside ihbehind =>
    rcases h with ⟨⟩ | h | h
    · rfl
    · exact ihinside h
    · exact ihbehind h

/-! ## Roots are outermost, children directly below -/

namespace Index.WellFormed

variable {ix : Index} {origin limit : Nat} {p q x : Invocation}

theorem mem_preorder_forest (hix : ix.WellFormed) :
    x ∈ (ix.forest origin limit).preorder ↔
      x ∈ ix.invocations ∧ origin ≤ x.start ∧ x.stop ≤ limit := by
  rw [hix.preorder_forest, List.mem_filter, decide_eq_true_eq]

theorem mem_preorder_forest_size (hix : ix.WellFormed) :
    x ∈ (ix.forest 0 ix.size).preorder ↔ x ∈ ix.invocations := by
  rw [hix.mem_preorder_forest]
  exact and_iff_left_of_imp fun hx ↦ ⟨Nat.zero_le _, hix.stop_le x hx⟩

/-- The roots of a window are those of its invocations that lie in no other of them. -/
theorem mem_roots_forest (hix : ix.WellFormed) :
    x ∈ (ix.forest origin limit).roots ↔
      (x ∈ ix.invocations ∧ origin ≤ x.start ∧ x.stop ≤ limit) ∧
        ∀ q ∈ ix.invocations, origin ≤ q.start → q.stop ≤ limit → ¬x.Within q := by
  fun_induction Index.forest ix origin limit with
  | case1 origin limit hnone =>
    refine ⟨fun h ↦ absurd h List.not_mem_nil, ?_⟩
    rintro ⟨⟨hx, hwindow⟩, -⟩
    exact absurd hwindow (not_mem_window_of_next hnone x hx)
  | case2 origin limit i hsome _ ihbehind =>
    obtain ⟨hi, hfirst⟩ := hix.of_next hsome
    have hstart := Index.le_start_of_next hsome
    have hstop := Index.stop_le_of_next hsome
    have hoff := i.offsets_lt
    have hxoff := x.offsets_lt
    rw [Forest.roots, List.mem_cons, ihbehind]
    constructor
    · rintro (rfl | ⟨⟨hx, hxstart, hxstop⟩, houter⟩)
      · refine ⟨⟨hi, hstart, hstop⟩, ?_⟩
        rintro q hq hqstart hqstop ⟨hpast, -⟩
        have hqlt := q.start_lt
        -- nothing in the window starts before what was found first
        rcases hfirst q hq hqstart hqstop with rfl | ⟨hqpast, -⟩ <;> omega
      · refine ⟨⟨hx, by omega, hxstop⟩, ?_⟩
        rintro q hq hqstart hqstop ⟨hpast, hinside⟩
        have hqoff := q.offsets_lt
        rcases hfirst q hq hqstart hqstop with rfl | ⟨-, hbehind | hwithin⟩
        · omega
        · exact houter q hq hbehind hqstop ⟨hpast, hinside⟩
        · omega
    · rintro ⟨⟨hx, hxstart, hxstop⟩, houter⟩
      rcases hfirst x hx hxstart hxstop with rfl | ⟨hpast, hbehind | hinside⟩
      · exact .inl rfl
      · refine .inr ⟨⟨hx, hbehind, hxstop⟩, ?_⟩
        intro q hq hqstart hqstop
        exact houter q hq (by omega) hqstop
      · exact absurd ⟨hpast, hinside⟩ (houter i hi hstart hstop)

theorem mem_roots_forest_size (hix : ix.WellFormed) :
    x ∈ (ix.forest 0 ix.size).roots ↔
      x ∈ ix.invocations ∧ ∀ q ∈ ix.invocations, ¬x.Within q := by
  rw [hix.mem_roots_forest]
  constructor
  · rintro ⟨⟨hx, -⟩, houter⟩
    refine ⟨hx, ?_⟩
    intro q hq
    exact houter q hq (Nat.zero_le _) (hix.stop_le q hq)
  · rintro ⟨hx, houter⟩
    refine ⟨⟨hx, Nat.zero_le _, hix.stop_le x hx⟩, ?_⟩
    intro q hq _ _
    exact houter q hq

theorem pairwise_roots_forest (hix : ix.WellFormed) (origin limit : Nat) :
    (ix.forest origin limit).roots.Pairwise fun i j ↦ i.stop ≤ j.start := by
  fun_induction Index.forest ix origin limit with
  | case1 => exact .nil
  | case2 origin limit i hsome _ ihbehind =>
    rw [Forest.roots]
    refine List.pairwise_cons.mpr ⟨?_, ihbehind⟩
    intro x hx
    exact (hix.mem_roots_forest.mp hx).1.2.1

/-- Of two invocations that hold a third, one holds the other. -/
theorem eq_or_within (hix : ix.WellFormed) (hp : p ∈ ix.invocations) (hq : q ∈ ix.invocations)
    (hxp : x.Within p) (hxq : x.Within q) : q = p ∨ p.Within q ∨ q.Within p := by
  obtain ⟨hpstart, hpstop⟩ := hxp
  obtain ⟨hqstart, hqstop⟩ := hxq
  have hxoff := x.offsets_lt
  have hpoff := p.offsets_lt
  have hqoff := q.offsets_lt
  rcases eq_or_rel_of_pairwise hix.nested hq hp with heq | ⟨hpast, hside⟩ | ⟨hpast, hside⟩
  · exact .inl heq
  · exact .inr (.inl ⟨hpast, by omega⟩)
  · exact .inr (.inr ⟨hpast, by omega⟩)

/-- The children of a node are what it holds with nothing in between. -/
theorem child_forest_iff (hix : ix.WellFormed) :
    (ix.forest 0 ix.size).Child p x ↔ p ∈ ix.invocations ∧ x ∈ ix.invocations ∧ x.Within p ∧
      ∀ q ∈ ix.invocations, x.Within q → q = p ∨ p.Within q := by
  constructor
  · rintro ⟨below, hnode, hx⟩
    have hp := hix.mem_preorder_forest_size.mp (Forest.exists_node_iff.mp ⟨below, hnode⟩)
    rw [Index.eq_inside_of_node hnode, Index.inside, hix.mem_roots_forest] at hx
    obtain ⟨⟨hx, hwithin⟩, houter⟩ := hx
    refine ⟨hp, hx, hwithin, ?_⟩
    intro q hq hxq
    rcases hix.eq_or_within hp hq hwithin hxq with heq | hpq | hqp
    · exact .inl heq
    · exact .inr hpq
    · exact absurd hxq (houter q hq hqp.1 hqp.2)
  · rintro ⟨hp, hx, hwithin, hinner⟩
    obtain ⟨below, hnode⟩ := Forest.exists_node_iff.mpr (hix.mem_preorder_forest_size.mpr hp)
    refine ⟨below, hnode, ?_⟩
    rw [Index.eq_inside_of_node hnode, Index.inside, hix.mem_roots_forest]
    refine ⟨⟨hx, hwithin⟩, ?_⟩
    intro q hq hqstart hqstop hxq
    have hpoff := p.offsets_lt
    have hqoff := q.offsets_lt
    -- what lies in `p` neither is `p` nor holds it
    rcases hinner q hq hxq with rfl | ⟨hqp, -⟩ <;> omega

end Index.WellFormed

/-! ## The forest of a text -/

/-- `f` is the order of containment of the invocations of `text`. -/
structure Forest.IsContainment (f : Forest) (text : List Char) : Prop where
  mem_preorder : ∀ i, i ∈ f.preorder ↔ i.Occurs text
  /-- No invocation is listed twice, and none before one that starts earlier. -/
  sorted : f.preorder.Pairwise fun i j ↦ i.start < j.start
  roots_apart : f.roots.Pairwise fun i j ↦ i.stop ≤ j.start
  children_apart : ∀ p below, f.Node p below →
    below.roots.Pairwise (fun i j ↦ i.stop ≤ j.start) ∧ ∀ x ∈ below.roots, x.Within p
  mem_roots_iff : ∀ x, x ∈ f.roots ↔
    x.Occurs text ∧ ∀ q : Invocation, q.Occurs text → ¬x.Within q
  /-- A parent is the innermost invocation around its child. -/
  child_iff : ∀ p x, f.Child p x ↔ p.Innermost text x
  existsUnique_parent : ∀ x ∈ f.preorder, x ∉ f.roots → ∃! p, f.Child p x

theorem Invocation.Innermost.unique {text : List Char} {p p' x : Invocation}
    (h : p.Innermost text x) (h' : p'.Innermost text x) : p' = p := by
  obtain ⟨hp, -, hxp, hinner⟩ := h
  obtain ⟨hp', -, hxp', hinner'⟩ := h'
  have hoff := p.offsets_lt
  have hoff' := p'.offsets_lt
  rcases hinner p' hp' hxp' with heq | ⟨hlt, -⟩
  · exact heq
  · rcases hinner' p hp hxp with heq | ⟨hlt', -⟩
    · exact heq.symm
    · omega

/-- **Nesting is containment.** Searching side by side through the text, and again between the
parentheses of everything found, gives the forest of all invocations ordered by containment. -/
theorem forest_isContainment (text : List Char) :
    ((Index.ofText text).forest 0 (Index.ofText text).size).roots =
        (Index.ofText text).chain 0 (Index.ofText text).size ∧
      (∀ p below, ((Index.ofText text).forest 0 (Index.ofText text).size).Node p below →
        below.roots = (Index.ofText text).nested p ∧
          below.roots = (Index.ofText text).chain (p.lparen + 1) p.rparen) ∧
      ((Index.ofText text).forest 0 (Index.ofText text).size).IsContainment text := by
  have hix := Index.wellFormed_ofText text
  have hchild : ∀ p x, ((Index.ofText text).forest 0 (Index.ofText text).size).Child p x ↔
      p.Innermost text x := by
    intro p x
    rw [hix.child_forest_iff]
    simp only [mem_invocations]
    rfl
  refine ⟨Index.roots_forest _ _ _, ?_, ?_⟩
  · intro p below hnode
    rw [Index.eq_inside_of_node hnode]
    exact ⟨rfl, Index.roots_forest _ _ _⟩
  constructor
  · intro i
    rw [hix.mem_preorder_forest_size, mem_invocations]
  · rw [hix.preorder_forest]
    exact hix.sorted.filter _
  · exact hix.pairwise_roots_forest _ _
  · intro p below hnode
    rw [Index.eq_inside_of_node hnode]
    refine ⟨hix.pairwise_roots_forest _ _, ?_⟩
    intro x hx
    exact (hix.mem_roots_forest.mp hx).1.2
  · intro x
    rw [hix.mem_roots_forest_size]
    simp only [mem_invocations]
  · exact hchild
  · intro x hx hroot
    obtain ⟨p, hp⟩ := (Forest.mem_roots_or_child hx).resolve_left hroot
    refine ⟨p, hp, ?_⟩
    intro p' hp'
    exact ((hchild p x).mp hp).unique ((hchild p' x).mp hp')

end CallSites
