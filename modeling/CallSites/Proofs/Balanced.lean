import Mathlib.Combinatorics.Enumerative.DyckWord
import CallSites.Proofs.Pairing

/-!
# The pairs are the balanced ones

A stack decides which parentheses belong together; here the same is said without one. A byte stands
in *code* when the reading of quotes, backslashes and line feeds in front of it leaves no literal
open. Two code parentheses belong together if the code parentheses between them form a Dyck word.
The first half of the module only counts: what waits on the stack above an opening parenthesis is
what has been opened and not closed since.

What is code is said in terms of bytes alone. The signs and modes of the pass come in where the two
readings are joined: the modes are the states of the reading of quotes under other names.

Because the condition on a pair looks at nothing outside the pair, so does the pairing: whatever is
left over around a balanced stretch of text cannot reach into it.
-/

namespace CallSites

open Text

/-! ## Parentheses in code -/

/-- Where the reading of quotes stands between two bytes. -/
inductive Quoting where
  | outside
  /-- In a literal that the byte `q` has opened. -/
  | inside (q : UInt8)
  /-- In such a literal, in front of a byte that is skipped. -/
  | skipping (q : UInt8)
  deriving Repr, DecidableEq

/-- Outside a literal a quote, `"` or `'`, opens one. Inside it a backslash skips the next byte, and
the same quote or a line feed that is not skipped ends it. -/
def Quoting.next : Quoting → UInt8 → Quoting
  | .outside, b => if b = 0x22 ∨ b = 0x27 then .inside b else .outside
  | .inside q, b =>
    if b = 0x5C then .skipping q else if b = q ∨ b = 0x0A then .outside else .inside q
  | .skipping q, _ => .inside q

/-- The reading of quotes behind a sequence of bytes that begins outside any literal. -/
def quotingBehind (bytes : List UInt8) : Quoting :=
  bytes.foldl Quoting.next .outside

/-- A parenthesis, `(` or `)`, as a step of a Dyck word. -/
def parenStep? (b : UInt8) : Option DyckStep :=
  if b = 0x28 then some .U else if b = 0x29 then some .D else none

/-- The code parenthesis at an offset, if there is one. -/
def parenAt (bytes : List UInt8) (n : Nat) : Option DyckStep :=
  if quotingBehind (bytes.take n) = .outside then bytes[n]?.bind parenStep? else none

/-- The code parentheses from one offset up to another, the second not included. -/
def parensBetween (bytes : List UInt8) (start stop : Nat) : List DyckStep :=
  (List.range' start (stop - start)).filterMap (parenAt bytes)

/-- A balanced sequence of parentheses. -/
def IsDyck (steps : List DyckStep) : Prop :=
  ∃ w : DyckWord, w.toList = steps

variable {bytes : List UInt8} {start stop n m o c : Nat}

theorem lt_length_of_parenAt {step : DyckStep} (h : parenAt bytes n = some step) :
    n < bytes.length := by
  rw [parenAt] at h
  split at h
  · obtain ⟨b, hb, -⟩ := Option.bind_eq_some_iff.mp h
    exact (List.getElem?_eq_some_iff.mp hb).1
  · exact absurd h nofun

theorem parensBetween_of_le (h : stop ≤ start) : parensBetween bytes start stop = [] := by
  rw [parensBetween, Nat.sub_eq_zero_of_le h, List.range'_zero, List.filterMap_nil]

theorem parensBetween_succ (h : start ≤ n) :
    parensBetween bytes start (n + 1) =
      parensBetween bytes start n ++ (parenAt bytes n).toList := by
  have hlen : n + 1 - start = (n - start) + 1 := by omega
  have hlast : start + 1 * (n - start) = n := by omega
  rw [parensBetween, hlen, List.range'_concat, hlast, List.filterMap_append, parensBetween]
  rfl

/-! ## Counting -/

/-- The number of code parentheses opened from `start` up to `n`. -/
def opened (bytes : List UInt8) (start n : Nat) : Nat :=
  (parensBetween bytes start n).count .U

/-- The number of code parentheses closed from `start` up to `n`. -/
def closed (bytes : List UInt8) (start n : Nat) : Nat :=
  (parensBetween bytes start n).count .D

theorem counts_of_le (bytes : List UInt8) (h : n ≤ start) :
    opened bytes start n = 0 ∧ closed bytes start n = 0 := by
  rw [opened, closed, parensBetween_of_le h]
  exact ⟨rfl, rfl⟩

theorem counts_succ_of_U (hle : start ≤ n) (h : parenAt bytes n = some .U) :
    opened bytes start (n + 1) = opened bytes start n + 1 ∧
      closed bytes start (n + 1) = closed bytes start n := by
  rw [opened, closed, parensBetween_succ hle, h, List.count_append, List.count_append]
  exact ⟨rfl, rfl⟩

theorem counts_succ_of_D (hle : start ≤ n) (h : parenAt bytes n = some .D) :
    opened bytes start (n + 1) = opened bytes start n ∧
      closed bytes start (n + 1) = closed bytes start n + 1 := by
  rw [opened, closed, parensBetween_succ hle, h, List.count_append, List.count_append]
  exact ⟨rfl, rfl⟩

theorem counts_succ_of_none (hle : start ≤ n) (h : parenAt bytes n = none) :
    opened bytes start (n + 1) = opened bytes start n ∧
      closed bytes start (n + 1) = closed bytes start n := by
  rw [opened, closed, parensBetween_succ hle, h, Option.toList_none, List.append_nil]
  exact ⟨rfl, rfl⟩

/-- A beginning of the parentheses of a stretch is the parentheses of a beginning of it. -/
theorem exists_take_parensBetween (bytes : List UInt8) (start stop i : Nat) :
    ∃ n ≤ stop, (parensBetween bytes start stop).take i = parensBetween bytes start n := by
  induction stop with
  | zero => exact ⟨0, Nat.le_refl 0, by rw [parensBetween_of_le (Nat.zero_le _), List.take_nil]⟩
  | succ stop ih =>
    obtain ⟨n, hn, htake⟩ := ih
    by_cases hle : start ≤ stop
    · rw [parensBetween_succ hle]
      by_cases hi : i ≤ (parensBetween bytes start stop).length
      · exact ⟨n, hn.trans (Nat.le_succ _), by rw [List.take_append_of_le_length hi, htake]⟩
      · refine ⟨stop + 1, Nat.le_refl _, ?_⟩
        rw [parensBetween_succ hle, List.take_of_length_le]
        -- one position adds at most one parenthesis
        have hone : (parenAt bytes stop).toList.length ≤ 1 := Option.length_toList_le
        rw [List.length_append]
        omega
    · refine ⟨0, Nat.zero_le _, ?_⟩
      rw [parensBetween_of_le (by omega), parensBetween_of_le (Nat.zero_le _), List.take_nil]

theorem parensBetween_isPrefix (bytes : List UInt8) (start : Nat) (h : n ≤ stop) :
    parensBetween bytes start n <+: parensBetween bytes start stop := by
  induction stop, h using Nat.le_induction with
  | base => exact List.prefix_refl _
  | succ stop hn ih =>
    by_cases hle : start ≤ stop
    · rw [parensBetween_succ hle]
      exact ih.trans (List.prefix_append _ _)
    · rw [parensBetween_of_le (by omega)]
      exact List.nil_prefix

/-- Balanced means that no more is closed than was opened, anywhere, and as much at the end. -/
theorem isDyck_parensBetween_iff :
    IsDyck (parensBetween bytes start stop) ↔
      opened bytes start stop = closed bytes start stop ∧
        ∀ n ≤ stop, closed bytes start n ≤ opened bytes start n := by
  constructor
  · rintro ⟨w, hw⟩
    refine ⟨?_, ?_⟩
    · rw [opened, closed, ← hw]
      exact w.count_U_eq_count_D
    · intro n hn
      have htake := List.prefix_iff_eq_take.mp (parensBetween_isPrefix bytes start hn)
      have hcount := w.count_D_le_count_U (parensBetween bytes start n).length
      rwa [hw, ← htake] at hcount
  · rintro ⟨heq, hle⟩
    refine ⟨⟨parensBetween bytes start stop, heq, ?_⟩, rfl⟩
    intro i
    obtain ⟨n, hn, htake⟩ := exists_take_parensBetween bytes start stop i
    rw [htake]
    exact hle n hn

/-! ## Signs and modes -/

theorem Sign.ofCode_toNat (b : UInt8) :
    Sign.ofCode b.toNat =
      if b = 0x22 then .quote .double
      else if b = 0x27 then .quote .single
      else if b = 0x5C then .backslash
      else if b = 0x0A then .lineEnd
      else if b = 0x28 then .opening
      else if b = 0x29 then .closing
      else .plain := by
  simp only [Sign.ofCode, ← UInt8.toNat_inj]
  rfl

/-- A sign that is a parenthesis, as a step of a Dyck word. -/
def Sign.step? : Sign → Option DyckStep
  | .opening => some .U
  | .closing => some .D
  | _ => none

theorem Sign.step?_eq_none {sign : Sign} (hopen : sign ≠ .opening) (hclose : sign ≠ .closing) :
    sign.step? = none := by
  rcases sign with q | _ | _ | _ | _ | _
  · rfl
  · rfl
  · rfl
  · exact absurd rfl hopen
  · exact absurd rfl hclose
  · rfl

theorem step?_ofCode (b : UInt8) : (Sign.ofCode b.toNat).step? = parenStep? b := by
  rw [Sign.ofCode_toNat, parenStep?]
  split_ifs <;> simp_all [Sign.step?]

/-- The byte that opens and closes a literal. -/
def Quote.byte : Quote → UInt8
  | .single => 0x27
  | .double => 0x22

/-- What a mode of the pass says of quotes. -/
def Mode.quoting : Mode → Quoting
  | .code => .outside
  | .literal q => .inside q.byte
  | .escaped q => .skipping q.byte

theorem Mode.quoting_eq_outside_iff {mode : Mode} : mode.quoting = .outside ↔ mode = .code := by
  cases mode <;> simp [Mode.quoting]

/-- **A step of the pass is a step of the reading of quotes.** -/
theorem Mode.quoting_next (mode : Mode) (b : UInt8) :
    (mode.next (.ofCode b.toNat)).quoting = mode.quoting.next b := by
  rw [Sign.ofCode_toNat]
  cases mode with
  | code =>
    rw [Mode.quoting, Quoting.next]
    split_ifs <;> simp_all [Mode.next, Mode.quoting, Quote.byte]
  | literal q =>
    rw [Mode.quoting, Quoting.next]
    cases q <;> split_ifs <;> simp_all [Mode.next, Mode.quoting, Quote.byte]
  | escaped q => rfl

/-! ## The stack -/

namespace Pairing

/-- **The pass reads quotes as they are read here.** -/
theorem quoting_run (bytes : List UInt8) :
    (run .bytes bytes).mode.quoting = quotingBehind bytes := by
  induction bytes using List.reverseRecOn with
  | nil => rfl
  | append_singleton bytes b ih =>
    rw [run_concat, State.step_mode, quotingBehind, List.foldl_concat, ← quotingBehind, ← ih]
    exact Mode.quoting_next _ b

/-- The pass behind the first `n` bytes. -/
def stateAt (bytes : List UInt8) (n : Nat) : State :=
  run .bytes (bytes.take n)

theorem waiting_stateAt_lt (h : o ∈ (stateAt bytes n).waiting) : o < n := by
  have hlt := (wellNested_run_bytes (bytes.take n)).waiting_lt o h
  rw [offset_run_bytes, List.length_take] at hlt
  omega

/-- **What one offset does to the stack.** -/
theorem stateAt_succ_cases (bytes : List UInt8) (n : Nat) :
    (parenAt bytes n = some .U ∧ (stateAt bytes (n + 1)).waiting = n :: (stateAt bytes n).waiting ∧
      (stateAt bytes (n + 1)).pairs = (stateAt bytes n).pairs) ∨
    (∃ o rest, parenAt bytes n = some .D ∧ (stateAt bytes n).waiting = o :: rest ∧
      (stateAt bytes (n + 1)).waiting = rest ∧
      (stateAt bytes (n + 1)).pairs = (o, n) :: (stateAt bytes n).pairs) ∨
    (parenAt bytes n = some .D ∧ (stateAt bytes n).waiting = [] ∧
      (stateAt bytes (n + 1)).waiting = [] ∧
      (stateAt bytes (n + 1)).pairs = (stateAt bytes n).pairs) ∨
    (parenAt bytes n = none ∧ (stateAt bytes (n + 1)).waiting = (stateAt bytes n).waiting ∧
      (stateAt bytes (n + 1)).pairs = (stateAt bytes n).pairs) := by
  by_cases hn : n < bytes.length
  · have hsucc : stateAt bytes (n + 1) =
        (stateAt bytes n).step (.ofCode bytes[n].toNat) 1 := by
      rw [stateAt, ← List.take_concat_get' bytes n hn, run_concat]
      rfl
    have hoffset : (stateAt bytes n).offset = n := by
      rw [stateAt, offset_run_bytes, List.length_take, Nat.min_eq_left hn.le]
    have hparen : parenAt bytes n = if (stateAt bytes n).mode = .code then
        (Sign.ofCode bytes[n].toNat).step? else none := by
      rw [parenAt, ← quoting_run, ← stateAt, List.getElem?_eq_getElem hn, Option.bind_some,
        step?_ofCode]
      simp only [Mode.quoting_eq_outside_iff]
    rw [hparen, hsucc]
    generalize Sign.ofCode bytes[n].toNat = sign
    rcases (stateAt bytes n).step_cases sign 1 with
      ⟨hcode, rfl, hw, hp⟩ | ⟨o, rest, hcode, rfl, hs, hw, hp⟩ | ⟨hguard, hw, hp⟩
    · exact .inl ⟨by rw [if_pos hcode]; rfl, by rw [hw, hoffset], hp⟩
    · exact .inr (.inl ⟨o, rest, by rw [if_pos hcode]; rfl, hs, hw, by rw [hp, hoffset]⟩)
    · by_cases hcode : (stateAt bytes n).mode = .code
      · obtain ⟨hopen, hempty⟩ := hguard hcode
        rw [if_pos hcode]
        by_cases hclose : sign = .closing
        · have hnil := hempty hclose
          exact .inr (.inr (.inl ⟨by rw [hclose]; rfl, hnil, by rw [hw, hnil], hp⟩))
        · exact .inr (.inr (.inr ⟨Sign.step?_eq_none hopen hclose, hw, hp⟩))
      · exact .inr (.inr (.inr ⟨if_neg hcode, hw, hp⟩))
  · -- behind the text nothing happens
    have htake : stateAt bytes (n + 1) = stateAt bytes n := by
      rw [stateAt, stateAt, List.take_of_length_le (by omega), List.take_of_length_le (by omega)]
    refine .inr (.inr (.inr ⟨?_, by rw [htake], by rw [htake]⟩))
    rw [parenAt, List.getElem?_eq_none (by omega)]
    split <;> rfl

theorem mem_pairs_stateAt_of_le (h : n ≤ m) {p : Nat × Nat} (hp : p ∈ (stateAt bytes n).pairs) :
    p ∈ (stateAt bytes m).pairs := by
  induction m, h using Nat.le_induction with
  | base => exact hp
  | succ m hm ih =>
    rcases stateAt_succ_cases bytes m with
      ⟨-, -, hpairs⟩ | ⟨o, rest, -, -, -, hpairs⟩ | ⟨-, -, -, hpairs⟩ | ⟨-, -, hpairs⟩
    · rwa [hpairs]
    · rw [hpairs]
      exact List.mem_cons_of_mem _ ih
    · rwa [hpairs]
    · rwa [hpairs]

/-- What waits has waited ever since it was read. -/
theorem mem_waiting_of_le (hlt : o < m) (hle : m ≤ n) (h : o ∈ (stateAt bytes n).waiting) :
    o ∈ (stateAt bytes m).waiting := by
  induction n, hle using Nat.le_induction with
  | base => exact h
  | succ n hn ih =>
    rcases stateAt_succ_cases bytes n with
      ⟨-, hw, -⟩ | ⟨t, rest, -, hs, hw, -⟩ | ⟨-, -, hw, -⟩ | ⟨-, hw, -⟩
    · rw [hw] at h
      rcases List.mem_cons.mp h with rfl | h
      · omega
      · exact ih h
    · rw [hw] at h
      exact ih (by rw [hs]; exact List.mem_cons_of_mem t h)
    · rw [hw] at h
      exact absurd h List.not_mem_nil
    · rw [hw] at h
      exact ih h

/-- Since an opening parenthesis was read that still waits, as many more were opened than closed as
stand on top of it. -/
theorem opened_eq_of_waiting {above below : List Nat}
    (h : (stateAt bytes n).waiting = above ++ o :: below) :
    parenAt bytes o = some .U ∧
      opened bytes (o + 1) n = closed bytes (o + 1) n + above.length := by
  have hne : ∀ a : List Nat, a ++ o :: below ≠ [] := by
    intro a
    exact List.append_ne_nil_of_right_ne_nil a (List.cons_ne_nil o below)
  induction n generalizing above with
  | zero => exact absurd h.symm (hne above)
  | succ n ih =>
    have hlt : ∀ {a : List Nat}, (stateAt bytes n).waiting = a ++ o :: below → o + 1 ≤ n := by
      intro a ha
      exact waiting_stateAt_lt (by rw [ha]; exact List.mem_append_right a List.mem_cons_self)
    rcases stateAt_succ_cases bytes n with
      ⟨hparen, hw, -⟩ | ⟨t, rest, hparen, hs, hw, -⟩ | ⟨hparen, hs, hw, -⟩ | ⟨hparen, hw, -⟩
    · rw [hw] at h
      rcases above with _ | ⟨t, above⟩
      · -- it is the parenthesis just read
        obtain ⟨rfl, -⟩ := List.cons.inj h
        have hzero := counts_of_le bytes (le_refl (n + 1))
        exact ⟨hparen, by rw [hzero.1, hzero.2, List.length_nil]⟩
      · obtain ⟨-, hrest⟩ := List.cons.inj h
        have hcount := counts_succ_of_U (hlt hrest) hparen
        obtain ⟨ho, hbefore⟩ := ih hrest
        refine ⟨ho, ?_⟩
        rw [hcount.1, hcount.2, hbefore, List.length_cons, Nat.add_assoc]
    · rw [hw] at h
      have hrest : (stateAt bytes n).waiting = (t :: above) ++ o :: below := by
        rw [hs, h, List.cons_append]
      have hcount := counts_succ_of_D (hlt hrest) hparen
      obtain ⟨ho, hbefore⟩ := ih hrest
      refine ⟨ho, ?_⟩
      rw [hcount.1, hcount.2, hbefore, List.length_cons]
      omega
    · rw [hw] at h
      exact absurd h.symm (hne above)
    · rw [hw] at h
      have hcount := counts_succ_of_none (hlt h) hparen
      obtain ⟨ho, hbefore⟩ := ih h
      exact ⟨ho, by rw [hcount.1, hcount.2, hbefore]⟩

theorem closed_le_opened_of_waiting (h : o ∈ (stateAt bytes n).waiting) (hm : m ≤ n) :
    closed bytes (o + 1) m ≤ opened bytes (o + 1) m := by
  by_cases hlt : o < m
  · obtain ⟨above, below, hsplit⟩ := List.append_of_mem (mem_waiting_of_le hlt hm h)
    have hcount := (opened_eq_of_waiting hsplit).2
    omega
  · have hzero := counts_of_le bytes (by omega : m ≤ o + 1)
    rw [hzero.1, hzero.2]

/-- While no more is closed than was opened since `start`, what waited there stays at the bottom,
and on top of it is what was opened since and is still open. -/
theorem exists_waiting_append (hle : ∀ m ≤ stop, closed bytes start m ≤ opened bytes start m)
    (hstart : start ≤ n) (hstop : n ≤ stop) :
    ∃ above, (stateAt bytes n).waiting = above ++ (stateAt bytes start).waiting ∧
      opened bytes start n = closed bytes start n + above.length ∧ ∀ o ∈ above, start ≤ o := by
  induction n, hstart using Nat.le_induction with
  | base =>
    have hzero := counts_of_le bytes (le_refl start)
    exact ⟨[], rfl, by rw [hzero.1, hzero.2]; rfl, by simp⟩
  | succ n hn ih =>
    obtain ⟨above, hwaiting, hcount, habove⟩ := ih (by omega)
    rcases stateAt_succ_cases bytes n with
      ⟨hparen, hw, -⟩ | ⟨t, rest, hparen, hs, hw, -⟩ | ⟨hparen, hs, hw, -⟩ | ⟨hparen, hw, -⟩
    · have hsucc := counts_succ_of_U hn hparen
      refine ⟨n :: above, by rw [hw, hwaiting, List.cons_append], ?_, ?_⟩
      · rw [hsucc.1, hsucc.2, hcount, List.length_cons, Nat.add_assoc]
      · intro o ho
        rcases List.mem_cons.mp ho with rfl | ho
        · exact hn
        · exact habove o ho
    · have hsucc := counts_succ_of_D hn hparen
      have hbound := hle (n + 1) hstop
      -- so something opened since `start` is there to be closed
      rcases above with _ | ⟨t', above⟩
      · rw [hsucc.1, hsucc.2, hcount, List.length_nil] at hbound
        omega
      · rw [hs, List.cons_append] at hwaiting
        obtain ⟨-, hrest⟩ := List.cons.inj hwaiting
        refine ⟨above, by rw [hw, hrest], ?_, ?_⟩
        · rw [hsucc.1, hsucc.2, hcount, List.length_cons]
          omega
        · intro o ho
          exact habove o (List.mem_cons_of_mem t' ho)
    · have hsucc := counts_succ_of_D hn hparen
      have hbound := hle (n + 1) hstop
      rw [hs, List.nil_eq, List.append_eq_nil_iff] at hwaiting
      rw [hsucc.1, hsucc.2, hcount, hwaiting.1, List.length_nil] at hbound
      omega
    · have hsucc := counts_succ_of_none hn hparen
      exact ⟨above, by rw [hw, hwaiting], by rw [hsucc.1, hsucc.2, hcount], habove⟩

/-- A balanced stretch leaves the stack as it found it. -/
theorem waiting_eq_of_isDyck (h : IsDyck (parensBetween bytes start stop)) (hle : start ≤ stop) :
    (stateAt bytes stop).waiting = (stateAt bytes start).waiting := by
  obtain ⟨heq, hbound⟩ := isDyck_parensBetween_iff.mp h
  obtain ⟨above, hwaiting, hcount, -⟩ := exists_waiting_append hbound hle le_rfl
  have habove : above = [] := List.length_eq_zero_iff.mp (by omega)
  rw [hwaiting, habove, List.nil_append]

/-! ## Which parentheses are paired -/

/-- A code `(` and a code `)` behind it with balanced code parentheses in between. -/
structure Matched (bytes : List UInt8) (o c : Nat) : Prop where
  lt : o < c
  opening : parenAt bytes o = some .U
  closing : parenAt bytes c = some .D
  balanced : IsDyck (parensBetween bytes (o + 1) c)

theorem matched_of_mem_pairs (h : (o, c) ∈ (stateAt bytes n).pairs) : Matched bytes o c := by
  induction n with
  | zero => exact absurd h List.not_mem_nil
  | succ n ih =>
    rcases stateAt_succ_cases bytes n with
      ⟨-, -, hp⟩ | ⟨t, rest, hparen, hs, -, hp⟩ | ⟨-, -, -, hp⟩ | ⟨-, -, hp⟩
    · exact ih (hp ▸ h)
    · rw [hp, List.mem_cons, Prod.mk.injEq] at h
      rcases h with ⟨rfl, rfl⟩ | h
      · -- the top of the stack has nothing above it
        have hmem : o ∈ (stateAt bytes c).waiting := by rw [hs]; exact List.mem_cons_self
        have htop : (stateAt bytes c).waiting = [] ++ o :: rest := hs
        obtain ⟨hopen, hcount⟩ := opened_eq_of_waiting htop
        refine ⟨waiting_stateAt_lt hmem, hopen, hparen, isDyck_parensBetween_iff.mpr ⟨hcount, ?_⟩⟩
        intro m hm
        exact closed_le_opened_of_waiting hmem hm
      · exact ih h
    · exact ih (hp ▸ h)
    · exact ih (hp ▸ h)

theorem waiting_succ_of_U (h : parenAt bytes n = some .U) :
    (stateAt bytes (n + 1)).waiting = n :: (stateAt bytes n).waiting := by
  rcases stateAt_succ_cases bytes n with ⟨-, hw, -⟩ | ⟨t, rest, h', -⟩ | ⟨h', -⟩ | ⟨h', -⟩
  · exact hw
  all_goals exact absurd (h.symm.trans h') nofun

theorem mem_pairs_succ_of_D (h : parenAt bytes n = some .D) {rest : List Nat}
    (hs : (stateAt bytes n).waiting = o :: rest) : (o, n) ∈ (stateAt bytes (n + 1)).pairs := by
  rcases stateAt_succ_cases bytes n with ⟨h', -⟩ | ⟨t, rest', -, hs', -, hp⟩ | ⟨-, hs', -⟩ | ⟨h', -⟩
  · exact absurd (h.symm.trans h') nofun
  · rw [hs, List.cons.injEq] at hs'
    rw [hp, hs'.1]
    exact List.mem_cons_self
  · exact absurd (hs.symm.trans hs') nofun
  · exact absurd (h.symm.trans h') nofun

theorem mem_pairs_of_matched (h : Matched bytes o c) (hn : c < n) :
    (o, c) ∈ (stateAt bytes n).pairs := by
  -- `o` is on top again when `c` is read
  have hwaiting := waiting_eq_of_isDyck h.balanced h.lt
  rw [waiting_succ_of_U h.opening] at hwaiting
  exact mem_pairs_stateAt_of_le hn (mem_pairs_succ_of_D h.closing hwaiting)

/-- An opening parenthesis in code waits until it is paired. -/
theorem waiting_or_paired (h : parenAt bytes n = some .U) (hlt : n < m) :
    n ∈ (stateAt bytes m).waiting ∨ ∃ c < m, (n, c) ∈ (stateAt bytes m).pairs := by
  induction m, hlt using Nat.le_induction with
  | base =>
    rw [waiting_succ_of_U h]
    exact .inl List.mem_cons_self
  | succ m hm ih =>
    rcases ih with hwait | ⟨c, hc, hpair⟩
    · rcases stateAt_succ_cases bytes m with
        ⟨-, hw, -⟩ | ⟨t, rest, -, hs, hw, hp⟩ | ⟨-, hs, -⟩ | ⟨-, hw, -⟩
      · rw [hw]
        exact .inl (List.mem_cons_of_mem m hwait)
      · rw [hs, List.mem_cons] at hwait
        rcases hwait with rfl | hwait
        · exact .inr ⟨m, Nat.lt_succ_self m, by rw [hp]; exact List.mem_cons_self⟩
        · exact .inl (hw ▸ hwait)
      · rw [hs] at hwait
        exact absurd hwait List.not_mem_nil
      · exact .inl (hw ▸ hwait)
    · exact .inr ⟨c, by omega, mem_pairs_stateAt_of_le (Nat.le_succ m) hpair⟩

/-- **A balanced stretch pairs its own parentheses.** -/
theorem paired_of_isDyck (h : IsDyck (parensBetween bytes start stop)) (hstart : start ≤ n)
    (hstop : n < stop) :
    (parenAt bytes n = some .U → ∃ c < stop, Matched bytes n c) ∧
      (parenAt bytes n = some .D → ∃ o ≥ start, Matched bytes o n) := by
  constructor
  · intro hopen
    rcases waiting_or_paired hopen hstop with hwait | ⟨c, hc, hpair⟩
    · -- at the end only what waited at the start is left
      rw [waiting_eq_of_isDyck h (by omega)] at hwait
      have hlt := waiting_stateAt_lt hwait
      omega
    · exact ⟨c, hc, matched_of_mem_pairs hpair⟩
  · intro hclose
    have hle := (isDyck_parensBetween_iff.mp h).2
    obtain ⟨above, hwaiting, hcount, habove⟩ := exists_waiting_append hle hstart hstop.le
    have hsucc := counts_succ_of_D hstart hclose
    have hbound := hle (n + 1) hstop
    rcases above with _ | ⟨o, above⟩
    · rw [hsucc.1, hsucc.2, hcount, List.length_nil] at hbound
      omega
    · exact ⟨o, habove o List.mem_cons_self, matched_of_mem_pairs
        (mem_pairs_succ_of_D hclose hwaiting)⟩

end Pairing

open Pairing

/-! ## A stretch by itself and inside a text -/

section Stretch

variable {before span after : List UInt8} {i j : Nat}

theorem quotingBehind_append (h : quotingBehind before = .outside) (more : List UInt8) :
    quotingBehind (before ++ more) = quotingBehind more := by
  rw [quotingBehind, List.foldl_append, ← quotingBehind, h, quotingBehind]

theorem parenAt_append (h : quotingBehind before = .outside) (after : List UInt8)
    (hi : i < span.length) :
    parenAt (before ++ (span ++ after)) (before.length + i) = parenAt span i := by
  have htake : (before ++ (span ++ after)).take (before.length + i) = before ++ span.take i := by
    rw [List.take_length_add_append, List.take_append_of_le_length hi.le]
  have hget : (before ++ (span ++ after))[before.length + i]? = span[i]? := by
    rw [List.getElem?_append_right (Nat.le_add_right _ _), Nat.add_sub_cancel_left,
      List.getElem?_append_left hi]
  rw [parenAt, htake, quotingBehind_append h, hget, parenAt]

theorem parensBetween_append (h : quotingBehind before = .outside) (after : List UInt8)
    (hj : j ≤ span.length) :
    parensBetween (before ++ (span ++ after)) (before.length + i) (before.length + j) =
      parensBetween span i j := by
  have hlen : before.length + j - (before.length + i) = j - i := by omega
  rw [parensBetween, hlen, ← List.map_add_range', List.filterMap_map, parensBetween]
  apply List.filterMap_congr
  intro k hk
  obtain ⟨l, hl, rfl⟩ := List.mem_range'.mp hk
  exact parenAt_append h after (by omega)

theorem matched_append_iff (h : quotingBehind before = .outside) (after : List UInt8)
    (hj : j < span.length) :
    Matched (before ++ (span ++ after)) (before.length + i) (before.length + j) ↔
      Matched span i j := by
  constructor
  · rintro ⟨hlt, hopen, hclose, hdyck⟩
    rw [parenAt_append h after (by omega)] at hopen hclose
    rw [Nat.add_assoc, parensBetween_append h after hj.le] at hdyck
    exact ⟨by omega, hopen, hclose, hdyck⟩
  · rintro ⟨hlt, hopen, hclose, hdyck⟩
    rw [← parenAt_append h after (by omega)] at hopen hclose
    rw [← parensBetween_append h after hj.le, ← Nat.add_assoc] at hdyck
    exact ⟨by omega, hopen, hclose, hdyck⟩

end Stretch

/-! ## The pairs of a text -/

section Pairs

variable {text : List Char} {o' c' : Nat}

/-- **Paired are the balanced code parentheses.** -/
theorem mem_pairs_iff_matched : (o, c) ∈ pairs text ↔ Matched (encode text) o c := by
  have hwhole : pairs text = (stateAt (encode text) (encode text).length).pairs := by
    rw [stateAt, List.take_length]
    rfl
  rw [hwhole]
  refine ⟨matched_of_mem_pairs, ?_⟩
  intro h
  exact mem_pairs_of_matched h (lt_length_of_parenAt h.closing)

/-- A closing parenthesis has one partner. -/
theorem eq_of_mem_pairs_right (h : (o, c) ∈ pairs text) (h' : (o', c) ∈ pairs text) : o = o' := by
  rcases lt_trichotomy o o' with hlt | heq | hlt
  · have hnested := lt_or_lt_of_mem_pairs h h' hlt
    have hlt' := lt_of_mem_pairs h'
    omega
  · exact heq
  · have hnested := lt_or_lt_of_mem_pairs h' h hlt
    have hlt' := lt_of_mem_pairs h
    omega

section Span

variable {before span after : List Char}

/-- A pair that lies in a stretch entered in code is a pair of the stretch. -/
theorem mem_pairs_iff_of_le (htext : text = before ++ (span ++ after))
    (hcode : quotingBehind (encode before) = .outside) (ho : byteLength before ≤ o)
    (hc : byteLength before ≤ c) (hstop : c < byteLength before + byteLength span) :
    (o, c) ∈ pairs text ↔ (o - byteLength before, c - byteLength before) ∈ pairs span := by
  have hj : c - byteLength before < (encode span).length := by
    rw [length_encode]
    omega
  have hmatched := matched_append_iff (i := o - byteLength before) hcode (encode after) hj
  rw [← encode_append, ← encode_append, ← htext, length_encode, Nat.add_sub_cancel' ho,
    Nat.add_sub_cancel' hc] at hmatched
  rw [mem_pairs_iff_matched, mem_pairs_iff_matched, hmatched]

/-- A stretch entered in code is as balanced inside the text as it is by itself. -/
theorem isDyck_span_iff (htext : text = before ++ (span ++ after))
    (hcode : quotingBehind (encode before) = .outside) :
    IsDyck (parensBetween (encode text) (byteLength before)
        (byteLength before + byteLength span)) ↔
      IsDyck (parensBetween (encode span) 0 (byteLength span)) := by
  have hj : byteLength span ≤ (encode span).length := (length_encode span).ge
  have happend := parensBetween_append (i := 0) hcode (encode after) hj
  rw [← encode_append, ← encode_append, ← htext, length_encode, Nat.add_zero] at happend
  rw [happend]

/-- A pair with an end in a balanced stretch entered in code is a pair of the stretch. -/
theorem mem_pairs_iff_of_isDyck (htext : text = before ++ (span ++ after))
    (hcode : quotingBehind (encode before) = .outside)
    (hspan : IsDyck (parensBetween (encode span) 0 (byteLength span)))
    (htouch : byteLength before ≤ o ∧ o < byteLength before + byteLength span ∨
      byteLength before ≤ c ∧ c < byteLength before + byteLength span) :
    (o, c) ∈ pairs text ↔ byteLength before ≤ o ∧ byteLength before ≤ c ∧
      (o - byteLength before, c - byteLength before) ∈ pairs span := by
  have hdyck := (isDyck_span_iff htext hcode).mpr hspan
  constructor
  · intro h
    have hmatched := mem_pairs_iff_matched.mp h
    have hlt := hmatched.lt
    -- both ends lie in the stretch, for it pairs its own parentheses
    have hboth : byteLength before ≤ o ∧ c < byteLength before + byteLength span := by
      rcases htouch with ⟨hge, hstop⟩ | ⟨hge, hstop⟩
      · obtain ⟨c', hc', hpair⟩ := (paired_of_isDyck hdyck hge hstop).1 hmatched.opening
        rw [eq_of_mem_pairs h (mem_pairs_iff_matched.mpr hpair)]
        exact ⟨hge, hc'⟩
      · obtain ⟨o', ho', hpair⟩ := (paired_of_isDyck hdyck hge hstop).2 hmatched.closing
        rw [eq_of_mem_pairs_right h (mem_pairs_iff_matched.mpr hpair)]
        exact ⟨ho', hstop⟩
    have hc : byteLength before ≤ c := by omega
    exact ⟨hboth.1, hc, (mem_pairs_iff_of_le htext hcode hboth.1 hc hboth.2).mp h⟩
  · rintro ⟨ho, hc, h⟩
    have hlt := lt_byteLength_of_mem_pairs h
    exact (mem_pairs_iff_of_le htext hcode ho hc (by omega)).mpr h

end Span

end Pairs

/-- The pairs of a text are the balanced ones, with what follows from that. -/
structure PairsBalanced (text : List Char) : Prop where
  /-- Two code parentheses are paired exactly if those between them form a Dyck word. -/
  partner_iff : ∀ o c : Nat, (partners text)[o]? = some c ↔ Matched (encode text) o c
  /-- A parenthesis is in one pair at most. -/
  one_pair : ∀ o c o' c' : Nat, (partners text)[o]? = some c → (partners text)[o']? = some c' →
    (o = o' ↔ c = c')
  nested_or_apart : ∀ o c o' c' : Nat, (partners text)[o]? = some c →
    (partners text)[o']? = some c' → o < o' → c < o' ∨ c' < c
  /-- A code parenthesis inside a pair has its partner inside that pair. -/
  paired_inside : ∀ o c n : Nat, (partners text)[o]? = some c → o < n → n < c →
    (parenAt (encode text) n = some .U → ∃ c' < c, (partners text)[n]? = some c') ∧
      (parenAt (encode text) n = some .D → ∃ o' > o, (partners text)[o']? = some n)
  /-- What stands around a balanced stretch that begins in code changes none of its pairs and adds
  none to it. -/
  span_alone : ∀ before span after, text = before ++ (span ++ after) →
    quotingBehind (encode before) = .outside →
    IsDyck (parensBetween (encode span) 0 (byteLength span)) →
    ∀ o c : Nat, (byteLength before ≤ o ∧ o < byteLength before + byteLength span ∨
        byteLength before ≤ c ∧ c < byteLength before + byteLength span) →
      ((partners text)[o]? = some c ↔ byteLength before ≤ o ∧ byteLength before ≤ c ∧
        (partners span)[o - byteLength before]? = some (c - byteLength before))

/-- **The pass pairs exactly the balanced code parentheses.** -/
theorem partners_balanced (text : List Char) : PairsBalanced text := by
  constructor
  · intro o c
    rw [getElem?_partners, mem_pairs_iff_matched]
  · intro o c o' c' h h'
    rw [getElem?_partners] at h h'
    constructor
    · rintro rfl
      exact eq_of_mem_pairs h h'
    · rintro rfl
      exact eq_of_mem_pairs_right h h'
  · intro o c o' c' h h' hlt
    exact lt_or_lt_of_mem_pairs (getElem?_partners.mp h) (getElem?_partners.mp h') hlt
  · intro o c n h hlt hlt'
    have hmatched := mem_pairs_iff_matched.mp (getElem?_partners.mp h)
    obtain ⟨hopen, hclose⟩ := paired_of_isDyck hmatched.balanced hlt hlt'
    constructor
    · intro hU
      obtain ⟨c', hc', hpair⟩ := hopen hU
      exact ⟨c', hc', getElem?_partners.mpr (mem_pairs_iff_matched.mpr hpair)⟩
    · intro hD
      obtain ⟨o', ho', hpair⟩ := hclose hD
      exact ⟨o', ho', getElem?_partners.mpr (mem_pairs_iff_matched.mpr hpair)⟩
  · intro before span after htext hcode hspan o c htouch
    rw [getElem?_partners, getElem?_partners, mem_pairs_iff_of_isDyck htext hcode hspan htouch]

/-- A literal with a quote that is skipped and a parenthesis, between parentheses one of which is
left over on either side. -/
def aroundLiteral : List Char :=
  ")g(\"\\\")\",(x))(".toList

theorem partners_balanced_aroundLiteral :
    (∀ o c, Matched (encode aroundLiteral) o c ↔ (o, c) = (2, 12) ∨ (o, c) = (9, 11)) ∧
      parenAt (encode aroundLiteral) 6 = none ∧ parenAt (encode aroundLiteral) 0 = some .D ∧
      parenAt (encode aroundLiteral) 13 = some .U := by
  have hpairs : pairs aroundLiteral = [(2, 12), (9, 11)] := by decide
  refine ⟨fun o c ↦ ?_, by decide, by decide, by decide⟩
  rw [← (partners_balanced aroundLiteral).partner_iff, getElem?_partners, hpairs, List.mem_cons,
    List.mem_singleton]

end CallSites
