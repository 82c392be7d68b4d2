import Mathlib.Order.Monotone.Basic
import CallSites.Proofs.Calls
import CallSites.Proofs.Declared

/-!
# Moving offsets

Two texts may hold the same names and parentheses at different offsets, because something between
them is longer in one than in the other. Offsets are only ever compared, so a strictly increasing
map that takes the offsets of the one to those of the other is all it takes to read them alike:
passes keep in step, heads begin the same invocations, and of the invocations the same are
outermost and the same are recorded.
-/

namespace CallSites

open Text

variable {φ : Nat → Nat}

/-! ## Passes -/

namespace Pairing

variable {s t : State}

/-- `t` is `s` with all offsets moved. -/
structure State.Moved (φ : Nat → Nat) (s t : State) : Prop where
  offset : t.offset = φ s.offset
  mode : t.mode = s.mode
  waiting : t.waiting = s.waiting.map φ
  pairs : t.pairs = s.pairs.map fun p ↦ (φ p.1, φ p.2)

/-- A unit may be wider on one side than on the other, if the offset behind it is moved along. -/
theorem State.Moved.step (h : State.Moved φ s t) (sign : Sign) {width width' : Nat}
    (hwidth : φ (s.offset + width) = φ s.offset + width') :
    State.Moved φ (s.step sign width) (t.step sign width') := by
  have hparens : t.parentheses sign =
      ((s.parentheses sign).1.map φ, (s.parentheses sign).2.map fun p ↦ (φ p.1, φ p.2)) := by
    cases sign with
    | closing =>
      simp only [State.parentheses, h.waiting, h.pairs, h.offset]
      cases s.waiting <;> rfl
    | _ => simp [State.parentheses, h.waiting, h.pairs, h.offset]
  constructor
  · rw [State.step_offset, State.step_offset, hwidth, h.offset]
  · rw [State.step_mode, State.step_mode, h.mode]
  · simp only [State.step, h.mode]
    split
    · rw [hparens]
    · exact h.waiting
  · simp only [State.step, h.mode]
    split
    · rw [hparens]
    · exact h.pairs

/-- Where all that is read is moved as one, passes keep in step. -/
theorem State.Moved.read {α : Type} (A : Alphabet α) (h : State.Moved φ s t)
    (hφ : ∀ n, s.offset ≤ n → ∀ width, φ (n + width) = φ n + width) (units : List α) :
    State.Moved φ (s.read A units) (t.read A units) := by
  induction units generalizing s t with
  | nil => exact h
  | cons u units ih =>
    refine ih (h.step (A.sign u) (hφ s.offset (Nat.le_refl _) _)) fun n hn ↦ hφ n ?_
    rw [State.step_offset] at hn
    omega

end Pairing

/-! ## Heads and invocations -/

/-- A head with its offsets moved. -/
def Head.move (φ : Nat → Nat) (h : Head) : Head where
  name := h.name
  start := φ h.start
  lparen := φ h.lparen

/-- The heads of a text that stands further on. -/
theorem headsFrom_add (offset k : Nat) (cs : List Char) :
    headsFrom (offset + k) cs = (headsFrom offset cs).map (Head.move (· + k)) := by
  match cs with
  | [] => simp [headsFrom]
  | c :: cs =>
    by_cases hc : isWord c
    · obtain ⟨w, behind, hsplit, hw, hbehind⟩ := exists_name_append hc cs
      have hlt : behind.length < (c :: cs).length := by
        rw [hsplit, List.length_append, List.length_cons]
        omega
      rw [hsplit, headsFrom_name (List.cons_ne_nil c w) hw hbehind,
        headsFrom_name (List.cons_ne_nil c w) hw hbehind, List.map_append, ← headsFrom_add,
        Nat.add_right_comm offset k]
      congr 1
      split
      · rw [List.map_singleton, Head.move, Nat.add_right_comm _ k]
      · rfl
    · rw [Bool.not_eq_true] at hc
      rw [headsFrom_cons hc, headsFrom_cons hc, Nat.add_right_comm, headsFrom_add]
termination_by cs.length
decreasing_by
  · exact hlt
  · exact Nat.lt_succ_self _

/-- An invocation with its offsets moved. -/
def Invocation.move (hφ : StrictMono φ) (i : Invocation) : Invocation where
  name := i.name
  start := φ i.start
  lparen := φ i.lparen
  stop := φ i.rparen + 1
  lparen_lt := Nat.succ_lt_succ (hφ i.offsets_lt.2.1)
  start_lt := hφ i.start_lt

/-- Where the partners are moved along, so is the invocation that a head begins. -/
theorem Head.complete?_move (hφ : StrictMono φ) {partner partner' : Std.HashMap Nat Nat}
    {h : Head} (hget : partner'[φ h.lparen]? = partner[h.lparen]?.map φ) :
    (h.move φ).complete? partner' = (h.complete? partner).map (Invocation.move hφ) := by
  rw [Head.complete?, Head.complete?, Head.move, hget]
  cases partner[h.lparen]? with
  | none => rfl
  | some c =>
    have hcond : φ h.lparen < φ c ∧ φ h.start < φ h.lparen ↔ h.lparen < c ∧ h.start < h.lparen :=
      and_congr hφ.lt_iff_lt hφ.lt_iff_lt
    by_cases hlt : h.lparen < c ∧ h.start < h.lparen
    · simp only [Option.map_some, Option.bind_eq_bind, Option.bind_some]
      rw [dif_pos hlt, dif_pos (hcond.mpr hlt)]
      rfl
    · simp only [Option.map_some, Option.bind_eq_bind, Option.bind_some]
      rw [dif_neg hlt, dif_neg (mt hcond.mp hlt)]
      rfl

theorem Invocation.move_inside_iff (hφ : StrictMono φ) (i j : Invocation) :
    (j.move hφ).lparen < (i.move hφ).start ∧ (i.move hφ).stop ≤ (j.move hφ).rparen ↔
      j.lparen < i.start ∧ i.stop ≤ j.rparen := by
  refine and_congr hφ.lt_iff_lt ?_
  rw [← i.rparen_add_one]
  exact hφ.lt_iff_lt

section Texts

variable {text text' : List Char}

/-- Moved pairs make moved partners. -/
theorem getElem?_partners_of_moved (hφ : StrictMono φ)
    (hpairs : pairs text' = (pairs text).map fun p ↦ (φ p.1, φ p.2)) (o : Nat) :
    (partners text')[φ o]? = (partners text)[o]?.map φ := by
  ext c
  rw [getElem?_partners, hpairs, List.mem_map, Option.map_eq_some_iff]
  constructor
  · rintro ⟨⟨o', c'⟩, hmem, heq⟩
    rw [Prod.mk.injEq] at heq
    obtain rfl := hφ.injective heq.1
    exact ⟨c', getElem?_partners.mpr hmem, heq.2⟩
  · rintro ⟨c', hget, rfl⟩
    exact ⟨(o, c'), getElem?_partners.mp hget, rfl⟩

/-- Where the pairs are moved, moved heads begin the moved invocations. -/
theorem filterMap_complete?_map_move (hφ : StrictMono φ)
    (hpairs : pairs text' = (pairs text).map fun p ↦ (φ p.1, φ p.2)) (hs : List Head) :
    (hs.map (Head.move φ)).filterMap (Head.complete? (partners text')) =
      (hs.filterMap (Head.complete? (partners text))).map (Invocation.move hφ) := by
  rw [List.filterMap_map, List.map_filterMap]
  congr 1
  funext h
  exact Head.complete?_move _ (getElem?_partners_of_moved hφ hpairs h.lparen)

/-- What follows a moved invocation is told by what stands behind its parenthesis in either text. -/
theorem followedBy_move (hφ : StrictMono φ) {i : Invocation}
    {before after before' after' : List Char} (htext : text = before ++ ')' :: after)
    (hlen : byteLength before = i.rparen) (htext' : text' = before' ++ ')' :: after')
    (hlen' : byteLength before' = φ i.rparen)
    (hhead : (skipBlanks after').head? = (skipBlanks after).head?) (mark : Char) :
    (Index.ofText text').followedBy (i.move hφ) mark = (Index.ofText text).followedBy i mark := by
  have hcut : ∀ cs ds : List Char, dropBytes (byteLength cs + 1) (cs ++ ')' :: ds) = ds := by
    intro cs ds
    have hlength : byteLength cs + 1 = byteLength (cs ++ [')']) := by
      rw [byteLength_append]
      rfl
    rw [List.append_cons, hlength, dropBytes_byteLength]
  have hdrop : dropBytes i.stop text = after := by
    rw [← i.rparen_add_one, ← hlen, htext, hcut]
  have hdrop' : dropBytes (i.move hφ).stop text' = after' := by
    change dropBytes (φ i.rparen + 1) text' = _
    rw [← hlen', htext', hcut]
  rw [Index.followedBy, Index.followedBy, Index.ofText, Index.ofText, hdrop, hdrop', hhead]

end Texts

/-! ## Indices -/

/-- The invocations of `ix'` are those of `ix`, moved, and the same characters follow them. -/
structure Index.Moved (hφ : StrictMono φ) (ix ix' : Index) : Prop where
  invocations_eq : ix'.invocations = ix.invocations.map (Invocation.move hφ)
  followedBy_eq : ∀ i ∈ ix.invocations, ∀ mark,
    ix'.followedBy (i.move hφ) mark = ix.followedBy i mark

namespace Index.Moved

variable {hφ : StrictMono φ} {ix ix' : Index}

theorem outermost_iff (h : Index.Moved hφ ix ix') {i : Invocation} (hi : i ∈ ix.invocations) :
    ix'.Outermost 0 (i.move hφ) ↔ ix.Outermost 0 i := by
  have hmem : ∀ j ∈ ix.invocations, j.move hφ ∈ ix'.invocations := by
    intro j hj
    rw [h.invocations_eq]
    exact List.mem_map_of_mem hj
  constructor
  · rintro ⟨-, -, hbrace, houter⟩
    rw [h.followedBy_eq i hi] at hbrace
    refine ⟨hi, Nat.zero_le _, hbrace, ?_⟩
    intro j hj _ hjbrace hinside
    rw [← h.followedBy_eq j hj] at hjbrace
    exact houter _ (hmem j hj) (Nat.zero_le _) hjbrace ((i.move_inside_iff hφ j).mpr hinside)
  · rintro ⟨-, -, hbrace, houter⟩
    rw [← h.followedBy_eq i hi] at hbrace
    refine ⟨hmem i hi, Nat.zero_le _, hbrace, ?_⟩
    intro j' hj' _ hjbrace hinside
    rw [h.invocations_eq] at hj'
    obtain ⟨j, hj, rfl⟩ := List.mem_map.mp hj'
    rw [h.followedBy_eq j hj] at hjbrace
    exact houter j hj (Nat.zero_le _) hjbrace ((i.move_inside_iff hφ j).mp hinside)

/-- **Moved definitions have the same names.** -/
theorem exists_mem_definitionsFrom_iff (h : Index.Moved hφ ix ix') (hix : ix.WellFormed)
    (hix' : ix'.WellFormed) {name : String} :
    (∃ x ∈ ix'.definitionsFrom 0, x.name = name) ↔ ∃ x ∈ ix.definitionsFrom 0, x.name = name := by
  constructor
  · rintro ⟨x, hx, hname⟩
    rw [hix'.mem_definitionsFrom] at hx
    have hmem := hx.1
    rw [h.invocations_eq] at hmem
    obtain ⟨i, hi, rfl⟩ := List.mem_map.mp hmem
    rw [h.outermost_iff hi] at hx
    exact ⟨i, hix.mem_definitionsFrom.mpr hx, hname⟩
  · rintro ⟨i, hi, hname⟩
    rw [hix.mem_definitionsFrom] at hi
    rw [← h.outermost_iff hi.1] at hi
    exact ⟨i.move hφ, hix'.mem_definitionsFrom.mpr hi, hname⟩

theorem captured_iff (h : Index.Moved hφ ix ix') (x : Invocation) :
    ix'.Captured 0 (x.move hφ) ↔ ix.Captured 0 x := by
  have hwithin : ∀ s : Invocation,
      (s.move hφ).start ≤ (x.move hφ).start ∧ (x.move hφ).stop ≤ (s.move hφ).stop ↔
        s.start ≤ x.start ∧ x.stop ≤ s.stop := by
    intro s
    refine and_congr hφ.le_iff_le ?_
    rw [← s.rparen_add_one, ← x.rparen_add_one, Nat.add_le_add_iff_right]
    exact Nat.add_le_add_iff_right.trans hφ.le_iff_le
  constructor
  · rintro ⟨s', hs', -, hsemi, hin⟩
    rw [h.invocations_eq] at hs'
    obtain ⟨s, hs, rfl⟩ := List.mem_map.mp hs'
    rw [h.followedBy_eq s hs] at hsemi
    exact ⟨s, hs, Nat.zero_le _, hsemi, (hwithin s).mp hin⟩
  · rintro ⟨s, hs, -, hsemi, hin⟩
    rw [← h.followedBy_eq s hs] at hsemi
    refine ⟨s.move hφ, ?_, Nat.zero_le _, hsemi, (hwithin s).mpr hin⟩
    rw [h.invocations_eq]
    exact List.mem_map_of_mem hs

/-- **Moved texts have moved statements.** -/
theorem statementsFrom_eq (h : Index.Moved hφ ix ix') (hix : ix.WellFormed)
    (hix' : ix'.WellFormed) :
    ix'.statementsFrom 0 = (ix.statementsFrom 0).map (Invocation.move hφ) := by
  rw [hix'.statementsFrom_eq_filter, hix.statementsFrom_eq_filter, h.invocations_eq,
    List.filter_map]
  congr 1
  refine List.filter_congr ?_
  intro x _
  exact decide_eq_decide.mpr (h.captured_iff x)

/-- **Moved lines call the same names.** -/
theorem calledOn_eq {line line' : List Char}
    (h : Index.Moved hφ (Index.ofText line) (Index.ofText line')) (keywords : Keywords) :
    calledOn keywords line' = calledOn keywords line := by
  rw [calledOn, calledOn,
    h.statementsFrom_eq (Index.wellFormed_ofText line) (Index.wellFormed_ofText line'),
    List.map_map]
  rfl

end Index.Moved

end CallSites
