import CallSites.Declared
import CallSites.Proofs.Invocation

/-!
# Which names are declared

The search for definitions jumps over each one it finds and goes on between the parentheses of
everything else. So it reports the outermost invocations with a brace behind them: nothing inside
one of those is reached, and whatever is not inside one is. Excluded names are dropped afterwards,
which is why an excluded construct still hides what stands between its parentheses.
-/

namespace CallSites

open Text

/-- `x` is a definition that starts at or after `origin` and lies in no other such definition. -/
def Index.Outermost (ix : Index) (origin : Nat) (x : Invocation) : Prop :=
  x ∈ ix.invocations ∧ origin ≤ x.start ∧ ix.followedBy x '\x7b' ∧
    ∀ y ∈ ix.invocations, origin ≤ y.start → ix.followedBy y '\x7b' →
      ¬(y.lparen < x.start ∧ x.stop ≤ y.rparen)

namespace Index.WellFormed

variable {ix : Index} {origin : Nat} {i : Invocation}

/-- Passing over an invocation that is no definition changes nothing. -/
theorem outermost_congr (hix : ix.WellFormed) (h : ix.next origin ix.size = some i)
    (hi : ¬ix.followedBy i '\x7b') (x : Invocation) :
    ix.Outermost (i.lparen + 1) x ↔ ix.Outermost origin x := by
  obtain ⟨-, hfirst⟩ := hix.of_next h
  have hstart := Index.le_start_of_next h
  have hlparen := i.start_lt
  constructor
  · rintro ⟨hx, hxstart, hbrace, houter⟩
    refine ⟨hx, by omega, hbrace, fun y hy hystart hybrace ↦ ?_⟩
    rcases hfirst y hy hystart (hix.stop_le y hy) with rfl | ⟨hpast, -⟩
    · exact absurd hybrace hi
    · exact houter y hy hpast hybrace
  · rintro ⟨hx, hxstart, hbrace, houter⟩
    rcases hfirst x hx hxstart (hix.stop_le x hx) with rfl | ⟨hpast, -⟩
    · exact absurd hbrace hi
    · exact ⟨hx, hpast, hbrace, fun y hy hystart ↦ houter y hy (by omega)⟩

/-- From a definition on there is that definition, and what is outermost behind it. -/
theorem outermost_iff (hix : ix.WellFormed) (h : ix.next origin ix.size = some i)
    (hi : ix.followedBy i '\x7b') (x : Invocation) :
    ix.Outermost origin x ↔ x = i ∨ ix.Outermost i.stop x := by
  obtain ⟨hmem, hfirst⟩ := hix.of_next h
  have hstart := Index.le_start_of_next h
  have hoff := i.offsets_lt
  constructor
  · rintro ⟨hx, hxstart, hbrace, houter⟩
    rcases hfirst x hx hxstart (hix.stop_le x hx) with rfl | ⟨hpast, hbehind | hinside⟩
    · exact .inl rfl
    · exact .inr ⟨hx, hbehind, hbrace, fun y hy hystart ↦ houter y hy (by omega)⟩
    · exact absurd ⟨hpast, hinside⟩ (houter i hmem hstart hi)
  · rintro (rfl | ⟨hx, hxstart, hbrace, houter⟩)
    · refine ⟨hmem, hstart, hi, fun y hy hystart _ hinside ↦ ?_⟩
      have hylt := y.start_lt
      rcases hfirst y hy hystart (hix.stop_le y hy) with rfl | ⟨hpast, -⟩ <;> omega
    · refine ⟨hx, by omega, hbrace, fun y hy hystart hybrace hinside ↦ ?_⟩
      have hxoff := x.offsets_lt
      have hyoff := y.offsets_lt
      -- what holds `x` is not `i` and not inside it, for `x` is behind `i`
      rcases hfirst y hy hystart (hix.stop_le y hy) with rfl | ⟨-, hbehind | hwithin⟩
      · omega
      · exact houter y hy hbehind hybrace hinside
      · omega

/-- **The search reports what is outermost.** -/
theorem mem_definitionsFrom (hix : ix.WellFormed) {x : Invocation} :
    x ∈ ix.definitionsFrom origin ↔ ix.Outermost origin x := by
  fun_induction Index.definitionsFrom ix origin with
  | case1 origin hnone =>
    refine ⟨fun h ↦ absurd h List.not_mem_nil, fun ⟨hx, hxstart, _⟩ ↦ ?_⟩
    exact absurd ⟨hxstart, hix.stop_le x hx⟩ (not_mem_window_of_next hnone x hx)
  | case2 origin i hsome hbrace ih =>
    rw [List.mem_cons, ih, hix.outermost_iff hsome hbrace]
  | case3 origin i hsome hbrace ih =>
    rw [ih, hix.outermost_congr hsome hbrace]

end Index.WellFormed

/-- What is declared are the names of the definitions found, the excluded ones struck out. -/
theorem mem_declared {keywords : Keywords} {text : List Char} {name : String} :
    name ∈ declared keywords text ↔
      name ∉ keywords.words ∧ ∃ x ∈ (Index.ofText text).definitionsFrom 0, x.name = name := by
  rw [declared, NameSet.mem_ofList, List.mem_filter, List.mem_map, Bool.not_eq_true',
    Keywords.contains, List.contains_eq_mem, decide_eq_false_iff_not, and_comm]

/-- **The declared names of a text.** A name is declared if it is not excluded and names an
invocation with a brace behind it that lies between the parentheses of no other such invocation,
excluded or not. -/
theorem mem_declared_iff (keywords : Keywords) (text : List Char) (name : String) :
    name ∈ declared keywords text ↔
      name ∉ keywords.words ∧ ∃ x : Invocation, x.Occurs text ∧ x.name = name ∧
        x.FollowedBy text '\x7b' ∧ ∀ y : Invocation, y.Occurs text → y.FollowedBy text '\x7b' →
          ¬(y.lparen < x.start ∧ x.stop ≤ y.rparen) := by
  have hix := Index.wellFormed_ofText text
  have hbrace : ∀ {i : Invocation}, i.Occurs text →
      ((Index.ofText text).followedBy i '\x7b' ↔ i.FollowedBy text '\x7b') :=
    fun hi ↦ hi.followedBy_iff (by decide)
  rw [mem_declared]
  refine and_congr_right fun _ ↦ ?_
  constructor
  · rintro ⟨x, hx, hname⟩
    obtain ⟨hx, -, hxbrace, houter⟩ := hix.mem_definitionsFrom.mp hx
    rw [mem_invocations] at hx
    refine ⟨x, hx, hname, (hbrace hx).mp hxbrace, fun y hy hybrace ↦ ?_⟩
    exact houter y (mem_invocations.mpr hy) (Nat.zero_le _) ((hbrace hy).mpr hybrace)
  · rintro ⟨x, hx, hname, hxbrace, houter⟩
    refine ⟨x, hix.mem_definitionsFrom.mpr ⟨mem_invocations.mpr hx, Nat.zero_le _,
      (hbrace hx).mpr hxbrace, fun y hy _ hybrace ↦ ?_⟩, hname⟩
    rw [mem_invocations] at hy
    exact houter y hy ((hbrace hy).mp hybrace)

end CallSites
