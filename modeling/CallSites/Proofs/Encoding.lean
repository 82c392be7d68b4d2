import Mathlib.Tactic.SplitIfs
import CallSites.Text.Blank
import CallSites.Text.Offset
import CallSites.Text.Utf8

/-!
# Characters and their bytes

Offsets count bytes while texts are lists of characters, and everything that is said about a pair of
parentheses has to cross from one to the other. One fact makes the crossing harmless: a byte below
`0x80` is never a part of a longer character, so it *is* a character and its offset is a boundary.

Positions are stated by splits. "The character `c` stands at offset `n`" is
`text = before ++ c :: after` with `byteLength before = n`; two splits of one text are compared by
the lengths of what stands before them.
-/

namespace CallSites.Text

/-! ## Words and blanks -/

/-- Tables whose ranges lie apart have no code point in common. -/
theorem inRanges_eq_false {s t : List (Nat × Nat)}
    (h : ∀ r ∈ s, ∀ r' ∈ t, r.2 < r'.1 ∨ r'.2 < r.1) {n : Nat} (hn : inRanges s n) :
    inRanges t n = false := by
  obtain ⟨r, hr, hrn⟩ := List.any_eq_true.mp hn
  rw [inRanges, List.any_eq_false]
  intro r' hr' hrn'
  simp only [Bool.and_eq_true, decide_eq_true_eq] at hrn hrn'
  have hapart := h r hr r' hr'
  omega

/-- No blank may stand in a name. So the blanks behind a name hold no name of their own, and heads
do not overlap. -/
theorem isWord_eq_false_of_isBlank {c : Char} (h : isBlank c) : isWord c = false := by
  by_cases hc : c.toNat < 0x80
  · rw [isBlank_of_lt hc] at h
    rw [isWord_of_lt hc]
    have hcode : c.toNat = 32 ∨ (9 ≤ c.toNat ∧ c.toNat ≤ 13) := by
      simp only [Bool.or_eq_true, beq_iff_eq, Bool.and_eq_true, decide_eq_true_eq] at h
      exact h.imp (fun h ↦ by rw [h]; rfl) id
    -- the ASCII blanks are few enough to try each
    have hlist : c.toNat ∈ [32, 9, 10, 11, 12, 13] := by
      simp only [List.mem_cons, List.not_mem_nil, or_false]
      omega
    have hall : ∀ n ∈ [32, 9, 10, 11, 12, 13],
        ((Char.ofNat n).isAlphanum || Char.ofNat n == '_') = false := by decide
    rw [← Char.ofNat_toNat c]
    exact hall _ hlist
  · rw [isBlank, if_neg hc] at h
    rw [isWord, if_neg hc]
    -- above ASCII both are read from tables
    have hapart : ∀ r ∈ blankRanges, ∀ r' ∈ wordRanges, r.2 < r'.1 ∨ r'.2 < r.1 := by
      decide +kernel
    exact inRanges_eq_false hapart h

/-! ## Lengths and splits -/

theorem byteLength_eq_zero {cs : List Char} : byteLength cs = 0 ↔ cs = [] := by
  cases cs with
  | nil => simp
  | cons c cs =>
    have hc : 0 < c.utf8Size := c.utf8Size_pos
    rw [byteLength_cons]
    refine ⟨fun h ↦ ?_, fun h ↦ absurd h (List.cons_ne_nil c cs)⟩
    omega

/-- Of two splits of a text the one with fewer bytes before it comes first. -/
theorem exists_append_of_byteLength_le {u v before after : List Char}
    (h : u ++ v = before ++ after) (hle : byteLength u ≤ byteLength before) :
    ∃ between, before = u ++ between ∧ v = between ++ after := by
  rcases List.append_eq_append_iff.mp h with ⟨between, hbefore, hv⟩ | ⟨between, hu, hafter⟩
  · exact ⟨between, hbefore, hv⟩
  · rw [hu, byteLength_append] at hle
    have hnil : between = [] := byteLength_eq_zero.mp (by omega)
    rw [hnil, List.append_nil] at hu
    rw [hnil, List.nil_append] at hafter
    exact ⟨[], by rw [hu, List.append_nil], by rw [← hafter, List.nil_append]⟩

/-- A character whose offset falls into a part of the text belongs to that part. -/
theorem mem_of_byteLength_between {u v w before after : List Char} {c : Char}
    (h : u ++ (v ++ w) = before ++ c :: after) (hle : byteLength u ≤ byteLength before)
    (hlt : byteLength before < byteLength u + byteLength v) : c ∈ v := by
  obtain ⟨between, rfl, hsplit⟩ := exists_append_of_byteLength_le h hle
  rw [byteLength_append] at hlt
  obtain ⟨rest, hv, hrest⟩ :=
    exists_append_of_byteLength_le hsplit.symm (by omega : byteLength between ≤ byteLength v)
  cases rest with
  | nil =>
    rw [List.append_nil] at hv
    rw [hv] at hlt
    omega
  | cons d rest =>
    rw [List.cons_append, List.cons.injEq] at hrest
    rw [hv, hrest.1]
    exact List.mem_append_right _ List.mem_cons_self

/-! ## Encoded text -/

/-- What stands right behind a split is found at the length of what stands before it. -/
theorem getElem?_append_cons_length {α : Type} (l m : List α) (a : α) :
    (l ++ a :: m)[l.length]? = some a := by
  rw [List.getElem?_append_right (Nat.le_refl _), Nat.sub_self, List.getElem?_cons_zero]

@[simp]
theorem encode_nil : encode [] = [] := rfl

@[simp]
theorem encode_cons (c : Char) (cs : List Char) :
    encode (c :: cs) = String.utf8EncodeChar c ++ encode cs := rfl

@[simp]
theorem encode_append (cs ds : List Char) : encode (cs ++ ds) = encode cs ++ encode ds :=
  List.flatMap_append

@[simp]
theorem length_encode (cs : List Char) : (encode cs).length = byteLength cs := by
  induction cs with
  | nil => rfl
  | cons c cs ih =>
    rw [encode_cons, List.length_append, String.length_utf8EncodeChar, ih, byteLength_cons]

theorem utf8EncodeChar_of_lt {c : Char} (h : c.toNat < 0x80) :
    String.utf8EncodeChar c = [UInt8.ofNat c.toNat] := by
  rw [String.utf8EncodeChar]
  exact if_pos (Nat.le_of_lt_succ h)

/-- The bytes of a longer character all have the high bit set. -/
theorem le_of_mem_utf8EncodeChar {c : Char} (hc : 0x80 ≤ c.toNat) {b : UInt8}
    (hb : b ∈ String.utf8EncodeChar c) : 0x80 ≤ b.toNat := by
  have hcode : 0x80 ≤ c.val.toNat := hc
  have high : ∀ {n : Nat}, 0x80 ≤ n → n < 0x100 → 0x80 ≤ (UInt8.ofNat n).toNat := by
    intro n hlow hup
    rwa [UInt8.toNat_ofNat', Nat.mod_eq_of_lt hup]
  rw [String.utf8EncodeChar] at hb
  split at hb
  · omega
  · split at hb
    · simp only [List.mem_cons, List.not_mem_nil, or_false] at hb
      rcases hb with rfl | rfl <;> exact high (by omega) (by omega)
    · split at hb
      · simp only [List.mem_cons, List.not_mem_nil, or_false] at hb
        rcases hb with rfl | rfl | rfl <;> exact high (by omega) (by omega)
      · simp only [List.mem_cons, List.not_mem_nil, or_false] at hb
        rcases hb with rfl | rfl | rfl | rfl <;> exact high (by omega) (by omega)

/-- **A byte below `0x80` is a character.** -/
theorem exists_split_of_getElem?_encode {text : List Char} {n : Nat} {b : UInt8}
    (h : (encode text)[n]? = some b) (hb : b.toNat < 0x80) :
    ∃ before c after, text = before ++ c :: after ∧ byteLength before = n ∧ c.toNat = b.toNat := by
  induction text generalizing n with
  | nil => simp at h
  | cons d text ih =>
    rw [encode_cons] at h
    by_cases hn : n < (String.utf8EncodeChar d).length
    · rw [List.getElem?_append_left hn] at h
      -- a byte of `d` below `0x80` is the only byte of `d`
      have hd : d.toNat < 0x80 := by
        refine Nat.lt_of_not_le fun hd ↦ ?_
        have hle := le_of_mem_utf8EncodeChar hd (List.mem_of_getElem? h)
        omega
      rw [utf8EncodeChar_of_lt hd] at h hn
      have hn0 : n = 0 := by simpa using hn
      subst hn0
      refine ⟨[], d, text, rfl, rfl, ?_⟩
      rw [List.getElem?_cons_zero, Option.some_inj] at h
      rw [← h, UInt8.toNat_ofNat', Nat.mod_eq_of_lt (by omega)]
    · rw [List.getElem?_append_right (Nat.le_of_not_lt hn)] at h
      obtain ⟨before, c, after, htext, hlen, hc⟩ := ih h
      rw [String.length_utf8EncodeChar] at hn hlen
      refine ⟨d :: before, c, after, by rw [htext, List.cons_append], ?_, hc⟩
      rw [byteLength_cons, hlen]
      omega

/-! ## Order -/

/-- The first bytes in which two characters differ are ordered as the characters are. -/
theorem utf8EncodeChar_append_lt {c d : Char} (h : c < d) (bytes more : List UInt8) :
    String.utf8EncodeChar c ++ bytes < String.utf8EncodeChar d ++ more := by
  have hval : c.val.toNat < d.val.toNat := UInt32.lt_iff_toNat_lt.mp (Char.lt_def.mp h)
  have hmax : d.val.toNat < 0x110000 := by
    rcases d.valid with hd | hd <;> omega
  -- the bytes of a character are its digits in base 64
  have hdigits : ∀ n : Nat, n / 4096 = n / 64 / 64 ∧ n / 262144 = n / 64 / 64 / 64 := by omega
  simp only [String.utf8EncodeChar, (hdigits _).1, (hdigits _).2]
  generalize c.val.toNat = m at hval
  generalize d.val.toNat = n at hval hmax
  split_ifs <;>
    simp only [List.cons_append, List.cons_lt_cons_iff, UInt8.lt_iff_toNat_lt, ← UInt8.toNat_inj,
      UInt8.toNat_ofNat'] <;>
    omega

/-- **Texts are ordered as their bytes are.** -/
theorem encode_lt_encode {cs ds : List Char} (h : cs < ds) : encode cs < encode ds := by
  induction h with
  | @nil d ds =>
    obtain ⟨b, bytes, hbytes⟩ := List.exists_cons_of_ne_nil (String.utf8EncodeChar_ne_nil (c := d))
    rw [encode_nil, encode_cons, hbytes]
    exact .nil
  | @rel c cs d ds hlt =>
    rw [encode_cons, encode_cons]
    exact utf8EncodeChar_append_lt hlt _ _
  | @cons c cs ds _ ih =>
    rw [encode_cons, encode_cons]
    exact List.append_left_lt ih

end CallSites.Text
