import Mathlib.Data.List.Induction
import Mathlib.Tactic.SplitIfs
import CallSites.Pairing
import CallSites.Proofs.Encoding

/-!
# The pairs are well nested

What the pass leaves behind is a laminar family: two pairs are nested or apart, and no parenthesis
that is still waiting stands inside a pair. This is not visible from the pairs alone while the pass
is under way, so the invariant speaks of the waiting parentheses too; the stack is what makes it
inductive.

The second thing the pass keeps is where everything comes from: each offset it holds is that of a
parenthesis of the right kind that stands in code. For bytes this pins the character, since a
parenthesis is one byte.
-/

namespace CallSites

namespace Pairing

variable {α : Type}

/-! ## What one unit can do -/

@[simp]
theorem State.step_offset (s : State) (sign : Sign) (width : Nat) :
    (s.step sign width).offset = s.offset + width := rfl

@[simp]
theorem State.step_mode (s : State) (sign : Sign) (width : Nat) :
    (s.step sign width).mode = s.mode.next sign := rfl

/-- A unit opens, closes the latest that waits, or touches no parenthesis. -/
theorem State.step_cases (s : State) (sign : Sign) (width : Nat) :
    (s.mode = .code ∧ sign = .opening ∧ (s.step sign width).waiting = s.offset :: s.waiting ∧
      (s.step sign width).pairs = s.pairs) ∨
    (∃ o rest, s.mode = .code ∧ sign = .closing ∧ s.waiting = o :: rest ∧
      (s.step sign width).waiting = rest ∧ (s.step sign width).pairs = (o, s.offset) :: s.pairs) ∨
    ((s.mode = .code → sign ≠ .opening ∧ (sign = .closing → s.waiting = [])) ∧
      (s.step sign width).waiting = s.waiting ∧ (s.step sign width).pairs = s.pairs) := by
  by_cases hmode : s.mode = .code
  · have hstep : ((s.step sign width).waiting, (s.step sign width).pairs) = s.parentheses sign := by
      simp only [State.step, if_pos hmode]
    obtain ⟨hwaiting, hpairs⟩ := Prod.mk.inj hstep
    cases sign with
    | opening => exact .inl ⟨hmode, rfl, hwaiting, hpairs⟩
    | closing =>
      cases hs : s.waiting with
      | nil =>
        simp only [hs] at hwaiting hpairs
        exact .inr (.inr ⟨fun _ ↦ ⟨nofun, fun _ ↦ rfl⟩, hwaiting, hpairs⟩)
      | cons o rest =>
        simp only [hs] at hwaiting hpairs
        exact .inr (.inl ⟨o, rest, hmode, rfl, rfl, hwaiting, hpairs⟩)
    | _ => exact .inr (.inr ⟨fun _ ↦ ⟨nofun, nofun⟩, hwaiting, hpairs⟩)
  · have hstep :
        ((s.step sign width).waiting, (s.step sign width).pairs) = (s.waiting, s.pairs) := by
      simp only [State.step, if_neg hmode]
    obtain ⟨hwaiting, hpairs⟩ := Prod.mk.inj hstep
    exact .inr (.inr ⟨fun h ↦ absurd h hmode, hwaiting, hpairs⟩)

/-! ## The pass from any state on -/

/-- The pass over `units` from a state on. -/
def State.read (A : Alphabet α) (s : State) (units : List α) : State :=
  units.foldl (fun s u ↦ s.step (A.sign u) (A.width u)) s

theorem run_eq_read (A : Alphabet α) (units : List α) : run A units = State.read A {} units := rfl

@[simp]
theorem State.read_nil (A : Alphabet α) (s : State) : s.read A [] = s := rfl

@[simp]
theorem State.read_cons (A : Alphabet α) (s : State) (u : α) (units : List α) :
    s.read A (u :: units) = (s.step (A.sign u) (A.width u)).read A units := rfl

theorem run_append (A : Alphabet α) (units more : List α) :
    run A (units ++ more) = (run A units).read A more :=
  List.foldl_append

theorem run_concat (A : Alphabet α) (units : List α) (u : α) :
    run A (units ++ [u]) = (run A units).step (A.sign u) (A.width u) :=
  run_append A units [u]

/-- What holds at the start and survives every unit holds behind every text. -/
theorem State.read_induction {A : Alphabet α} {P : State → Prop}
    (hstep : ∀ s u, P s → P (s.step (A.sign u) (A.width u))) {s : State} (hs : P s)
    (units : List α) : P (s.read A units) := by
  induction units generalizing s with
  | nil => exact hs
  | cons u units ih => exact ih (hstep s u hs)

/-- Bytes are counted one by one. -/
theorem offset_read_bytes (s : State) (bytes : List UInt8) :
    (s.read .bytes bytes).offset = s.offset + bytes.length := by
  induction bytes generalizing s with
  | nil => rfl
  | cons b bytes ih =>
    rw [State.read_cons, ih, State.step_offset, List.length_cons]
    change s.offset + 1 + bytes.length = _
    omega

theorem offset_run_bytes (bytes : List UInt8) : (run .bytes bytes).offset = bytes.length := by
  rw [run_eq_read, offset_read_bytes, Nat.zero_add]

/-! ## Nesting -/

/-- Behind every unit: what waits is listed latest first and stands outside all pairs, and each pair
holds or follows every earlier one. -/
structure State.WellNested (s : State) : Prop where
  waiting_lt : ∀ o ∈ s.waiting, o < s.offset
  waiting_sorted : s.waiting.Pairwise (· > ·)
  waiting_apart : ∀ o ∈ s.waiting, ∀ p ∈ s.pairs, o < p.1 ∨ p.2 < o
  pair_lt : ∀ p ∈ s.pairs, p.1 < p.2 ∧ p.2 < s.offset
  pairs_nested : s.pairs.Pairwise fun p q ↦ q.2 < p.2 ∧ (q.2 < p.1 ∨ p.1 < q.1)

theorem State.WellNested.empty : State.WellNested {} where
  waiting_lt := by simp
  waiting_sorted := .nil
  waiting_apart := by simp
  pair_lt := by simp
  pairs_nested := .nil

theorem State.WellNested.step {s : State} (h : s.WellNested) (sign : Sign) {width : Nat}
    (hwidth : 0 < width) : (s.step sign width).WellNested := by
  have hoff := s.step_offset sign width
  rcases s.step_cases sign width with ⟨-, -, hw, hp⟩ | ⟨o, rest, -, -, hs, hw, hp⟩ | ⟨-, hw, hp⟩
  · -- the new parenthesis stands behind everything read so far
    constructor
    · rw [hw, hoff]
      intro o ho
      rcases List.mem_cons.mp ho with rfl | ho
      · omega
      · have hlt := h.waiting_lt o ho
        omega
    · rw [hw]
      exact List.pairwise_cons.mpr ⟨h.waiting_lt, h.waiting_sorted⟩
    · rw [hw, hp]
      intro o ho p hmem
      rcases List.mem_cons.mp ho with rfl | ho
      · exact .inr (h.pair_lt p hmem).2
      · exact h.waiting_apart o ho p hmem
    · rw [hp, hoff]
      intro p hmem
      have hlt := h.pair_lt p hmem
      omega
    · rw [hp]
      exact h.pairs_nested
  · -- the latest that waits is closed: what waited before it stands before the new pair
    have hsorted := List.pairwise_cons.mp (hs ▸ h.waiting_sorted)
    have ho : o ∈ s.waiting := by rw [hs]; exact List.mem_cons_self
    have hrest : ∀ w ∈ rest, w ∈ s.waiting := fun w hmem ↦ by
      rw [hs]; exact List.mem_cons_of_mem o hmem
    constructor
    · rw [hw, hoff]
      intro w hmem
      have hlt := h.waiting_lt w (hrest w hmem)
      omega
    · rw [hw]
      exact hsorted.2
    · rw [hw, hp]
      intro w hmem p hp'
      rcases List.mem_cons.mp hp' with rfl | hp'
      · exact .inl (hsorted.1 w hmem)
      · exact h.waiting_apart w (hrest w hmem) p hp'
    · rw [hp, hoff]
      intro p hp'
      rcases List.mem_cons.mp hp' with rfl | hp'
      · have hlt := h.waiting_lt o ho
        exact ⟨hlt, by omega⟩
      · have hlt := h.pair_lt p hp'
        omega
    · rw [hp]
      refine List.pairwise_cons.mpr ⟨fun q hq ↦ ⟨(h.pair_lt q hq).2, ?_⟩, h.pairs_nested⟩
      exact (h.waiting_apart o ho q hq).symm
  · -- only the offset moves, and all bounds are upper bounds
    constructor
    · rw [hw, hoff]
      intro o ho
      have hlt := h.waiting_lt o ho
      omega
    · rw [hw]
      exact h.waiting_sorted
    · rw [hw, hp]
      exact h.waiting_apart
    · rw [hp, hoff]
      intro p hmem
      have hlt := h.pair_lt p hmem
      omega
    · rw [hp]
      exact h.pairs_nested

theorem State.WellNested.read {A : Alphabet α} (hA : ∀ u, 0 < A.width u) {s : State}
    (h : s.WellNested) (units : List α) : (s.read A units).WellNested :=
  State.read_induction (fun _ u hs ↦ hs.step (A.sign u) (hA u)) h units

theorem wellNested_run {A : Alphabet α} (hA : ∀ u, 0 < A.width u) (units : List α) :
    (run A units).WellNested :=
  State.WellNested.empty.read hA units

theorem wellNested_run_bytes (bytes : List UInt8) : (run .bytes bytes).WellNested :=
  wellNested_run (fun _ ↦ Nat.one_pos) bytes

/-! ## Where the offsets come from -/

/-- A unit of the given meaning stands in code at offset `n`. -/
def InCode (A : Alphabet α) (units : List α) (sign : Sign) (n : Nat) : Prop :=
  ∃ before u after, units = before ++ u :: after ∧ A.sign u = sign ∧
    (run A before).mode = .code ∧ (run A before).offset = n

theorem InCode.append {A : Alphabet α} {units : List α} {sign : Sign} {n : Nat}
    (h : InCode A units sign n) (more : List α) : InCode A (units ++ more) sign n := by
  obtain ⟨before, u, after, rfl, hu, hmode, hn⟩ := h
  refine ⟨before, u, after ++ more, ?_, hu, hmode, hn⟩
  rw [List.append_assoc, List.cons_append]

theorem inCode_concat {A : Alphabet α} {units : List α} (h : (run A units).mode = .code) (u : α) :
    InCode A (units ++ [u]) (A.sign u) (run A units).offset :=
  ⟨units, u, [], rfl, rfl, h, rfl⟩

/-- The pass holds offsets of parentheses in code only. -/
theorem inCode_run (A : Alphabet α) (units : List α) :
    (∀ o ∈ (run A units).waiting, InCode A units .opening o) ∧
      ∀ p ∈ (run A units).pairs, InCode A units .opening p.1 ∧ InCode A units .closing p.2 := by
  induction units using List.reverseRecOn with
  | nil => exact ⟨nofun, nofun⟩
  | append_singleton units u ih =>
    obtain ⟨ihw, ihp⟩ := ih
    -- what was known stays known, since a place in code does not depend on what follows
    have hwaiting : ∀ o ∈ (run A units).waiting, InCode A (units ++ [u]) .opening o :=
      fun o ho ↦ (ihw o ho).append [u]
    have hpairs : ∀ p ∈ (run A units).pairs,
        InCode A (units ++ [u]) .opening p.1 ∧ InCode A (units ++ [u]) .closing p.2 :=
      fun p hp ↦ ⟨(ihp p hp).1.append [u], (ihp p hp).2.append [u]⟩
    rw [run_concat]
    rcases (run A units).step_cases (A.sign u) (A.width u) with
      ⟨hmode, hu, hw, hp⟩ | ⟨o, rest, hmode, hu, hs, hw, hp⟩ | ⟨-, hw, hp⟩
    · rw [hw, hp]
      refine ⟨fun o ho ↦ ?_, hpairs⟩
      rcases List.mem_cons.mp ho with rfl | ho
      · exact hu ▸ inCode_concat hmode u
      · exact hwaiting o ho
    · rw [hs] at hwaiting
      rw [hw, hp]
      refine ⟨fun w hmem ↦ hwaiting w (List.mem_cons_of_mem o hmem), fun p hmem ↦ ?_⟩
      rcases List.mem_cons.mp hmem with rfl | hmem
      · exact ⟨hwaiting o List.mem_cons_self, hu ▸ inCode_concat hmode u⟩
      · exact hpairs p hmem
    · rw [hw, hp]
      exact ⟨hwaiting, hpairs⟩

/-- A code byte of a meaning that only one byte has is that byte. -/
theorem getElem?_of_inCode {bytes : List UInt8} {sign : Sign} {n : Nat} {b : UInt8}
    (hsign : ∀ {code : Nat}, Sign.ofCode code = sign → code = b.toNat)
    (h : InCode .bytes bytes sign n) : bytes[n]? = some b := by
  obtain ⟨before, d, after, rfl, hd, -, hn⟩ := h
  have hdb : d = b := UInt8.toNat_inj.mp (hsign hd)
  rw [offset_run_bytes] at hn
  rw [← hn, ← hdb, Text.getElem?_append_cons_length]

/-- A code byte that only one ASCII character gives is that character, whole. -/
theorem exists_split_of_inCode {text : List Char} {sign : Sign} {n : Nat} {c : Char}
    (hc : c.toNat < 0x80) (hsign : ∀ {code : Nat}, Sign.ofCode code = sign → code = c.toNat)
    (h : InCode .bytes (Text.encode text) sign n) :
    ∃ before after, text = before ++ c :: after ∧ Text.byteLength before = n := by
  have hcode : (UInt8.ofNat c.toNat).toNat = c.toNat := by
    rw [UInt8.toNat_ofNat', Nat.mod_eq_of_lt (by omega)]
  have hget : (Text.encode text)[n]? = some (UInt8.ofNat c.toNat) :=
    getElem?_of_inCode (fun h ↦ (hsign h).trans hcode.symm) h
  obtain ⟨cs, d, ds, hsplit, hlen, hd⟩ :=
    Text.exists_split_of_getElem?_encode hget (by rw [hcode]; exact hc)
  have hdc : d = c := Char.toNat_inj.mp (hd.trans hcode)
  exact ⟨cs, ds, hdc ▸ hsplit, hlen⟩

end Pairing

theorem Sign.eq_of_ofCode_eq_opening {code : Nat} (h : Sign.ofCode code = .opening) :
    code = 0x28 := by
  unfold Sign.ofCode at h
  split_ifs at h
  assumption

theorem Sign.eq_of_ofCode_eq_closing {code : Nat} (h : Sign.ofCode code = .closing) :
    code = 0x29 := by
  unfold Sign.ofCode at h
  split_ifs at h
  assumption

/-! ## The pairs of a text -/

/-- Two different members of a list are related one way or the other. -/
theorem eq_or_rel_of_pairwise {α : Type} {R : α → α → Prop} {l : List α} (h : l.Pairwise R)
    {a b : α} (ha : a ∈ l) (hb : b ∈ l) : a = b ∨ R a b ∨ R b a := by
  have hboth : l.Pairwise fun a b ↦ a = b ∨ R a b ∨ R b a := h.imp fun hab ↦ .inr (.inl hab)
  have hflip : l.Pairwise fun a b ↦ b = a ∨ R b a ∨ R a b := h.imp fun hab ↦ .inr (.inr hab)
  exact List.Pairwise.forall_of_forall_of_flip (fun _ _ ↦ .inl rfl) hboth hflip ha hb

section Pairs

variable {text : List Char} {o c o' c' : Nat}

theorem lt_of_mem_pairs (h : (o, c) ∈ pairs text) : o < c :=
  ((Pairing.wellNested_run_bytes (Text.encode text)).pair_lt (o, c) h).1

theorem lt_byteLength_of_mem_pairs (h : (o, c) ∈ pairs text) : c < Text.byteLength text := by
  have hlt := ((Pairing.wellNested_run_bytes (Text.encode text)).pair_lt (o, c) h).2
  rwa [Pairing.offset_run_bytes, Text.length_encode] at hlt

/-- **Two pairs are apart or nested.** -/
theorem lt_or_lt_of_mem_pairs (h : (o, c) ∈ pairs text) (h' : (o', c') ∈ pairs text)
    (hlt : o < o') : c < o' ∨ c' < c := by
  have hnested := (Pairing.wellNested_run_bytes (Text.encode text)).pairs_nested
  rcases eq_or_rel_of_pairwise hnested h h' with heq | ⟨hcc, -⟩ | ⟨hcc, hapart⟩
  · rw [Prod.mk.injEq] at heq
    omega
  · exact .inr hcc
  · rcases hapart with hapart | hapart
    · exact .inl hapart
    · omega

theorem eq_of_mem_pairs (h : (o, c) ∈ pairs text) (h' : (o, c') ∈ pairs text) : c = c' := by
  have hnested := (Pairing.wellNested_run_bytes (Text.encode text)).pairs_nested
  have hlt := lt_of_mem_pairs h
  have hlt' := lt_of_mem_pairs h'
  rcases eq_or_rel_of_pairwise hnested h h' with heq | ⟨-, hapart⟩ | ⟨-, hapart⟩
  · exact (Prod.mk.inj heq).2
  · omega
  · omega

/-- The partner table and the list of pairs say the same. -/
theorem getElem?_partners : (partners text)[o]? = some c ↔ (o, c) ∈ pairs text := by
  -- no two pairs share an opening, so the table overwrites nothing
  have hdistinct : (pairs text).Pairwise fun p q ↦ (p.1 == q.1) = false := by
    have hwell := Pairing.wellNested_run_bytes (Text.encode text)
    refine List.Pairwise.imp_of_mem ?_ hwell.pairs_nested
    intro p q hp hq hpq
    have hlt := hwell.pair_lt q hq
    rw [beq_eq_false_iff_ne]
    omega
  constructor
  · intro h
    have hmem : o ∈ partners text := Std.HashMap.mem_iff_isSome_getElem?.mpr (by rw [h]; rfl)
    rw [partners, Std.HashMap.mem_ofList, List.contains_iff_mem, List.mem_map] at hmem
    obtain ⟨⟨o', c'⟩, hpair, rfl⟩ := hmem
    rw [partners, Std.HashMap.getElem?_ofList_of_mem BEq.rfl hdistinct hpair, Option.some_inj] at h
    exact h ▸ hpair
  · intro h
    exact Std.HashMap.getElem?_ofList_of_mem BEq.rfl hdistinct h

/-- A pair ends in a closing parenthesis. -/
theorem exists_split_of_mem_pairs (h : (o, c) ∈ pairs text) :
    ∃ before after, text = before ++ ')' :: after ∧ Text.byteLength before = c :=
  Pairing.exists_split_of_inCode (by decide) Sign.eq_of_ofCode_eq_closing
    ((Pairing.inCode_run .bytes (Text.encode text)).2 (o, c) h).2

end Pairs

end CallSites
