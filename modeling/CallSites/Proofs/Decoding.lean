import Mathlib.Algebra.Ring.Nat
import Mathlib.Tactic.SplitIfs
import CallSites.Proofs.Encoding

/-!
# What decoding keeps

Decoding leniently has two things to keep. A text that was encoded comes back: the decoder reads the
bytes of one character as that character and is then between characters again. And whatever the
bytes are, the ASCII ones among them come through, each as its own character, in order.

The second rests on a fact about damage. While the decoder is inside a character all bytes it has
taken are above ASCII, and a byte that breaks the character off is looked at afresh. So bytes and
text fall into the same pieces: an ASCII byte is its character, and any other character stands for a
run of bytes above ASCII, sound or not. What could go wrong is that gathered bits make no character
above ASCII, since a number that is no code point would be read as `0`. The ranges that a first byte
sets for the next one exclude it; they are kept in the invariant as the interval of numbers that the
bytes still owed can complete.
-/

namespace CallSites.Text

namespace Utf8

/-! ## The decoder from any state on -/

/-- What the end of the bytes makes of a state: a character cut short is damaged. -/
def finish (s : State) : List (Option Char) :=
  if s = .ready then [] else [none]

theorem finish_inside (owed : Nat) (low high : UInt8) (bits : Nat) :
    finish (.inside owed low high bits) = [none] :=
  if_neg State.noConfusion

/-- The characters that the decoder makes of `bytes` from a state on. -/
def charactersFrom (s : State) : List UInt8 → List (Option Char)
  | [] => finish s
  | b :: bytes => (step s b).1 ++ charactersFrom (step s b).2 bytes

/-- One more byte, with the characters made so far. -/
def advance (r : Array (Option Char) × State) (b : UInt8) : Array (Option Char) × State :=
  (r.1 ++ (step r.2 b).1, (step r.2 b).2)

theorem characters_eq (bytes : List UInt8) : characters bytes = charactersFrom .ready bytes := by
  have hfold : ∀ r, (bytes.foldl advance r).1.toList ++ finish (bytes.foldl advance r).2 =
      r.1.toList ++ charactersFrom r.2 bytes := by
    induction bytes with
    | nil => exact fun _ ↦ rfl
    | cons b bytes ih =>
      intro r
      rw [List.foldl_cons, ih, charactersFrom, ← List.append_assoc]
      congr 1
      exact Array.toList_appendList
  have hrun : characters bytes = (run bytes).1.toList ++ finish (run bytes).2 := by
    rw [characters]
    split
    · rename_i made h
      rw [h]
      exact (List.append_nil _).symm
    · rename_i made owed low high bits h
      rw [h, finish_inside]
      exact Array.toList_push
  exact hrun.trans (hfold (#[], .ready))

/-! ## Encoded text -/

/-- The first byte of a character of two bytes. -/
theorem start_two {n : Nat} (hlow : 2 ≤ n) (hup : n < 32) :
    start (UInt8.ofNat (n + 192)) = ([], .inside 0 0x80 0xBF n) := by
  have hall : ∀ n < 32, 2 ≤ n →
      start (UInt8.ofNat (n + 192)) = ([], .inside 0 0x80 0xBF n) := by decide
  exact hall n hup hlow

/-- The first byte of a character of three bytes. -/
theorem start_three {n : Nat} (h : n < 16) :
    start (UInt8.ofNat (n + 224)) =
      ([], .inside 1 (if n = 0 then 0xA0 else 0x80) (if n = 13 then 0x9F else 0xBF) n) := by
  have hall : ∀ n < 16, start (UInt8.ofNat (n + 224)) =
      ([], .inside 1 (if n = 0 then 0xA0 else 0x80) (if n = 13 then 0x9F else 0xBF) n) := by decide
  exact hall n h

/-- The first byte of a character of four bytes. -/
theorem start_four {n : Nat} (h : n < 5) :
    start (UInt8.ofNat (n + 240)) =
      ([], .inside 2 (if n = 0 then 0x90 else 0x80) (if n = 4 then 0x8F else 0xBF) n) := by
  have hall : ∀ n < 5, start (UInt8.ofNat (n + 240)) =
      ([], .inside 2 (if n = 0 then 0x90 else 0x80) (if n = 4 then 0x8F else 0xBF) n) := by decide
  exact hall n h

theorem start_of_lt {b : UInt8} (h : b.toNat < 0x80) :
    start b = ([some (Char.ofNat b.toNat)], .ready) :=
  if_pos (UInt8.lt_iff_toNat_lt.mpr h)

/-- A byte that begins a character. -/
theorem charactersFrom_start {b : UInt8} {s : State} (h : start b = ([], s)) (bytes : List UInt8) :
    charactersFrom .ready (b :: bytes) = charactersFrom s bytes := by
  change (start b).1 ++ charactersFrom (start b).2 bytes = _
  rw [h, List.nil_append]

section Continuation

variable {owed bits n : Nat} {low high : UInt8}

/-- What a byte above ASCII has to offer when it continues a character. -/
theorem continuation (hn : n < 64) (hlow : low.toNat ≤ n + 128) (hhigh : n + 128 ≤ high.toNat) :
    (low ≤ UInt8.ofNat (n + 128) ∧ UInt8.ofNat (n + 128) ≤ high) ∧
      (UInt8.ofNat (n + 128)).toNat - 0x80 = n := by
  have hcode : (UInt8.ofNat (n + 128)).toNat = n + 128 := by
    rw [UInt8.toNat_ofNat', Nat.mod_eq_of_lt (by omega)]
  rw [UInt8.le_iff_toNat_le, UInt8.le_iff_toNat_le, hcode]
  exact ⟨⟨hlow, hhigh⟩, Nat.add_sub_cancel n 0x80⟩

/-- A byte in its range that continues a character. -/
theorem charactersFrom_inside (hn : n < 64) (hlow : low.toNat ≤ n + 128)
    (hhigh : n + 128 ≤ high.toNat) (bytes : List UInt8) :
    charactersFrom (.inside (owed + 1) low high bits) (UInt8.ofNat (n + 128) :: bytes) =
      charactersFrom (.inside owed 0x80 0xBF (bits * 64 + n)) bytes := by
  obtain ⟨hmem, hbits⟩ := continuation hn hlow hhigh
  rw [charactersFrom, step, if_pos hmem, hbits]
  rfl

/-- A byte in its range that completes one. -/
theorem charactersFrom_inside_zero (hn : n < 64) (hlow : low.toNat ≤ n + 128)
    (hhigh : n + 128 ≤ high.toNat) (bytes : List UInt8) :
    charactersFrom (.inside 0 low high bits) (UInt8.ofNat (n + 128) :: bytes) =
      some (Char.ofNat (bits * 64 + n)) :: charactersFrom .ready bytes := by
  obtain ⟨hmem, hbits⟩ := continuation hn hlow hhigh
  rw [charactersFrom, step, if_pos hmem, hbits]
  rfl

end Continuation

/-- Six bits of a character make a continuation byte. -/
theorem continuation_range (n : Nat) :
    (0x80 : UInt8).toNat ≤ n % 64 + 128 ∧ n % 64 + 128 ≤ (0xBF : UInt8).toNat := by
  change 0x80 ≤ _ ∧ _ ≤ 0xBF
  omega

/-- The second of three bytes lies in the range that the first one sets, since the character has no
shorter form and is no surrogate. -/
theorem second_of_three {v : Nat} (hlow : 0x800 ≤ v) (hup : v < 0x10000)
    (hgap : v < 0xD800 ∨ 0xDFFF < v) :
    (if v / 4096 % 16 = 0 then 0xA0 else 0x80 : UInt8).toNat ≤ v / 64 % 64 + 128 ∧
      v / 64 % 64 + 128 ≤ (if v / 4096 % 16 = 13 then 0x9F else 0xBF : UInt8).toNat := by
  rw [apply_ite UInt8.toNat, apply_ite UInt8.toNat]
  change (if _ then 0xA0 else 0x80) ≤ _ ∧ _ ≤ (if _ then 0x9F else 0xBF)
  split_ifs <;> omega

/-- So does the second of four, since the character has no shorter form and is not too large. -/
theorem second_of_four {v : Nat} (hlow : 0x10000 ≤ v) (hup : v < 0x110000) :
    (if v / 262144 % 8 = 0 then 0x90 else 0x80 : UInt8).toNat ≤ v / 4096 % 64 + 128 ∧
      v / 4096 % 64 + 128 ≤ (if v / 262144 % 8 = 4 then 0x8F else 0xBF : UInt8).toNat := by
  rw [apply_ite UInt8.toNat, apply_ite UInt8.toNat]
  change (if _ then 0x90 else 0x80) ≤ _ ∧ _ ≤ (if _ then 0x8F else 0xBF)
  split_ifs <;> omega

/-- **The bytes of a character are decoded as that character.** -/
theorem charactersFrom_utf8EncodeChar_append (c : Char) (bytes : List UInt8) :
    charactersFrom .ready (String.utf8EncodeChar c ++ bytes) =
      some c :: charactersFrom .ready bytes := by
  have hchar : Char.ofNat c.val.toNat = c := Char.ofNat_toNat c
  have hvalid : c.val.toNat < 0xD800 ∨ 0xDFFF < c.val.toNat ∧ c.val.toNat < 0x110000 := c.valid
  have hlt : ∀ n : Nat, n % 64 < 64 := fun n ↦ Nat.mod_lt n (by decide)
  have hlast := continuation_range c.val.toNat
  rw [String.utf8EncodeChar]
  generalize c.val.toNat = v at hchar hvalid hlast ⊢
  split_ifs with hone htwo hthree
  · have hcode : (UInt8.ofNat v).toNat = v := by
      rw [UInt8.toNat_ofNat', Nat.mod_eq_of_lt (by omega)]
    change (start _).1 ++ charactersFrom (start _).2 bytes = _
    rw [start_of_lt (by omega), hcode, hchar]
    rfl
  · have hdigits : v / 64 % 32 * 64 + v % 64 = v := by omega
    change charactersFrom .ready (_ :: _ :: bytes) = _
    rw [charactersFrom_start (start_two (by omega) (by omega)),
      charactersFrom_inside_zero (hlt v) hlast.1 hlast.2, hdigits, hchar]
  · have hdigits : (v / 4096 % 16 * 64 + v / 64 % 64) * 64 + v % 64 = v := by omega
    obtain ⟨hlow, hup⟩ := second_of_three (v := v) (by omega) (by omega) (by omega)
    change charactersFrom .ready (_ :: _ :: _ :: bytes) = _
    rw [charactersFrom_start (start_three (by omega)), charactersFrom_inside (hlt _) hlow hup,
      charactersFrom_inside_zero (hlt v) hlast.1 hlast.2, hdigits, hchar]
  · have hdigits :
        ((v / 262144 % 8 * 64 + v / 4096 % 64) * 64 + v / 64 % 64) * 64 + v % 64 = v := by
      omega
    obtain ⟨hlow, hup⟩ := second_of_four (v := v) (by omega) (by omega)
    obtain ⟨hlow', hup'⟩ := continuation_range (v / 64)
    change charactersFrom .ready (_ :: _ :: _ :: _ :: bytes) = _
    rw [charactersFrom_start (start_four (by omega)), charactersFrom_inside (hlt _) hlow hup,
      charactersFrom_inside (hlt _) hlow' hup',
      charactersFrom_inside_zero (hlt v) hlast.1 hlast.2, hdigits, hchar]

theorem charactersFrom_encode (cs : List Char) :
    charactersFrom .ready (encode cs) = cs.map some := by
  induction cs with
  | nil => rfl
  | cons c cs ih => rw [encode_cons, charactersFrom_utf8EncodeChar_append, ih, List.map_cons]

end Utf8

/-- **An encoded text is decoded as it was.** -/
theorem decode_encode (cs : List Char) : decode (encode cs) = cs := by
  rw [decode, Utf8.characters_eq, Utf8.charactersFrom_encode, List.map_map]
  exact List.map_id cs

/-! ## Damaged text -/

namespace Utf8

/-- All numbers from `first` up to and without `last` are characters above ASCII. -/
def AboveAscii (first last : Nat) : Prop :=
  0x80 ≤ first ∧ last ≤ 0x110000 ∧ (last ≤ 0xD800 ∨ 0xE000 ≤ first)

theorem AboveAscii.mono {first last first' last' : Nat} (h : AboveAscii first last)
    (hfirst : first ≤ first') (hlast : last' ≤ last) : AboveAscii first' last' := by
  obtain ⟨hlow, hup, hgap⟩ := h
  refine ⟨by omega, by omega, ?_⟩
  omega

theorem AboveAscii.le_toNat_ofNat {n : Nat} (h : AboveAscii n (n + 1)) :
    0x80 ≤ (Char.ofNat n).toNat := by
  obtain ⟨hlow, hup, hgap⟩ := h
  have hvalid : n.isValidChar := by
    rcases hgap with hgap | hgap
    · exact .inl (by omega)
    · exact .inr ⟨by omega, by omega⟩
  rw [Char.ofNat, dif_pos hvalid]
  exact hlow

/-- What the bytes still owed can complete are characters above ASCII. -/
def State.Sound : State → Prop
  | .ready => True
  | .inside owed low high bits =>
    0x80 ≤ low.toNat ∧ high.toNat ≤ 0xBF ∧
      AboveAscii ((bits * 64 + (low.toNat - 0x80)) * 64 ^ owed)
        ((bits * 64 + (high.toNat - 0x80) + 1) * 64 ^ owed)

/-- A first byte is a character, is damaged, or begins a character above ASCII. -/
theorem start_cases (b : UInt8) :
    (b.toNat < 0x80 ∧ start b = ([some (Char.ofNat b.toNat)], .ready)) ∨
    (0x80 ≤ b.toNat ∧ start b = ([none], .ready)) ∨
    (0x80 ≤ b.toNat ∧ ∃ owed low high bits, start b = ([], .inside owed low high bits) ∧
      (State.inside owed low high bits).Sound) := by
  rw [start]
  simp only [UInt8.lt_iff_toNat_lt, ← UInt8.toNat_inj, UInt8.reduceToNat]
  split_ifs with hascii
  · exact .inl ⟨hascii, rfl⟩
  any_goals exact .inr (.inl ⟨by omega, rfl⟩)
  all_goals
    refine .inr (.inr ⟨by omega, _, _, _, _, rfl, ?_⟩)
    simp only [State.Sound, AboveAscii, UInt8.reduceToNat]
    omega

/-- Inside a character a byte completes it, continues it, or breaks it off and is a first byte. -/
theorem step_inside_cases {owed bits : Nat} {low high : UInt8}
    (hs : (State.inside owed low high bits).Sound) (b : UInt8) :
    (0x80 ≤ b.toNat ∧ ∃ c, step (.inside owed low high bits) b = ([some c], .ready) ∧
      0x80 ≤ c.toNat) ∨
    (0x80 ≤ b.toNat ∧ ∃ owed' low' high' bits',
      step (.inside owed low high bits) b = ([], .inside owed' low' high' bits') ∧
      (State.inside owed' low' high' bits').Sound) ∨
    step (.inside owed low high bits) b = (none :: (start b).1, (start b).2) := by
  obtain ⟨hlow, hhigh, habove⟩ := hs
  by_cases hmem : low ≤ b ∧ b ≤ high
  · have hle := UInt8.le_iff_toNat_le.mp hmem.1
    have hge := UInt8.le_iff_toNat_le.mp hmem.2
    -- what can still be completed lies in the part of the interval that this byte picks
    have hpart : AboveAscii ((bits * 64 + (b.toNat - 0x80)) * 64 ^ owed)
        ((bits * 64 + (b.toNat - 0x80) + 1) * 64 ^ owed) :=
      habove.mono (Nat.mul_le_mul_right _ (by omega)) (Nat.mul_le_mul_right _ (by omega))
    rcases owed with _ | owed
    · rw [Nat.pow_zero, Nat.mul_one, Nat.mul_one] at hpart
      exact .inl ⟨by omega, _, if_pos hmem, hpart.le_toNat_ofNat⟩
    · refine .inr (.inl ⟨by omega, _, _, _, _, if_pos hmem, Nat.le_refl _, Nat.le_refl _, ?_⟩)
      have hfirst : (0x80 : UInt8).toNat - 0x80 = 0 := rfl
      have hlast : (0xBF : UInt8).toNat - 0x80 = 63 := rfl
      rw [Nat.pow_succ', ← Nat.mul_assoc, ← Nat.mul_assoc, Nat.add_one_mul] at hpart
      rw [hfirst, hlast, Nat.add_zero, Nat.add_assoc]
      exact hpart
  · exact .inr (.inr (if_neg hmem))

end Utf8

/-! ## Pieces -/

/-- Bytes and text fall into the same pieces: an ASCII byte is its character, and each other
character stands for a run of bytes above ASCII. -/
inductive Alike : List UInt8 → List Char → Prop
  | nil : Alike [] []
  | ascii {b : UInt8} {bytes : List UInt8} {cs : List Char} (hb : b.toNat < 0x80)
    (h : Alike bytes cs) : Alike (b :: bytes) (Char.ofNat b.toNat :: cs)
  | above {piece bytes : List UInt8} {c : Char} {cs : List Char} (hne : piece ≠ [])
    (hpiece : ∀ b ∈ piece, 0x80 ≤ b.toNat) (hc : 0x80 ≤ c.toNat) (h : Alike bytes cs) :
    Alike (piece ++ bytes) (c :: cs)

namespace Utf8

/-- What the decoder has taken of the character it is in. -/
inductive Taken : State → List UInt8 → Prop
  | ready : Taken .ready []
  | inside {owed bits : Nat} {low high : UInt8} {taken : List UInt8} (hne : taken ≠ [])
    (habove : ∀ b ∈ taken, 0x80 ≤ b.toNat) (hsound : (State.inside owed low high bits).Sound) :
    Taken (.inside owed low high bits) taken

/-- From every state on, what is taken and what follows fall into the pieces of the text that is
made of them. -/
theorem alike_charactersFrom {s : State} {taken : List UInt8} (h : Taken s taken)
    (bytes : List UInt8) :
    Alike (taken ++ bytes) ((charactersFrom s bytes).map (·.getD replacement)) := by
  have hdamaged : 0x80 ≤ replacement.toNat := by decide
  induction bytes generalizing s taken with
  | nil =>
    rcases h with _ | ⟨hne, habove, -⟩
    · exact .nil
    · rw [charactersFrom, finish_inside]
      exact .above hne habove hdamaged .nil
  | cons b bytes ih =>
    have hfirst : Alike (b :: bytes)
        (((start b).1 ++ charactersFrom (start b).2 bytes).map (·.getD replacement)) := by
      rcases start_cases b with
        ⟨hb, hstart⟩ | ⟨hb, hstart⟩ | ⟨hb, owed, low, high, bits, hstart, hsound⟩
      · rw [hstart]
        exact .ascii hb (ih .ready)
      · rw [hstart]
        exact .above (List.cons_ne_nil b []) (List.forall_mem_singleton.mpr hb) hdamaged (ih .ready)
      · rw [hstart]
        exact ih (.inside (List.cons_ne_nil b []) (List.forall_mem_singleton.mpr hb) hsound)
    rcases h with _ | ⟨hne, habove, hsound⟩
    · exact hfirst
    · have htaken : 0x80 ≤ b.toNat → ∀ d ∈ taken ++ [b], 0x80 ≤ d.toNat := fun hb ↦
        List.forall_mem_append.mpr ⟨habove, List.forall_mem_singleton.mpr hb⟩
      have hcons : taken ++ [b] ≠ [] := List.append_ne_nil_of_left_ne_nil hne [b]
      rw [charactersFrom]
      rcases step_inside_cases hsound b with
        ⟨hb, c, hstep, hc⟩ | ⟨hb, owed', low', high', bits', hstep, hsound'⟩ | hstep
      · rw [hstep, List.append_cons]
        exact .above hcons (htaken hb) hc (ih .ready)
      · rw [hstep, List.append_cons]
        exact ih (.inside hcons (htaken hb) hsound')
      · rw [hstep]
        exact .above hne habove hdamaged hfirst

end Utf8

/-- **Decoding keeps the pieces of any byte sequence.** -/
theorem alike_decode (bytes : List UInt8) : Alike bytes (decode bytes) := by
  rw [decode, Utf8.characters_eq]
  exact Utf8.alike_charactersFrom .ready bytes

/-! ## ASCII -/

/-- Whether a byte is an ASCII character. -/
def isAscii (b : UInt8) : Bool :=
  decide (b.toNat < 0x80)

/-- An ASCII byte is the whole of its character. -/
theorem utf8EncodeChar_ofNat_toNat {b : UInt8} (hb : b.toNat < 0x80) :
    String.utf8EncodeChar (Char.ofNat b.toNat) = [b] := by
  have hcode : (Char.ofNat b.toNat).toNat = b.toNat := by
    rw [Char.ofNat, dif_pos (.inl (by omega))]
    rfl
  rw [utf8EncodeChar_of_lt (by omega), hcode, UInt8.ofNat_toNat]

theorem filter_isAscii_of_le {bytes : List UInt8} (h : ∀ b ∈ bytes, 0x80 ≤ b.toNat) :
    bytes.filter isAscii = [] := by
  rw [List.filter_eq_nil_iff]
  intro b hb
  rw [isAscii, decide_eq_true_eq]
  exact Nat.not_lt_of_le (h b hb)

/-- **Bytes and text of the same pieces have the same ASCII characters.** -/
theorem Alike.filter_isAscii {bytes : List UInt8} {cs : List Char} (h : Alike bytes cs) :
    (encode cs).filter isAscii = bytes.filter isAscii := by
  induction h with
  | nil => rfl
  | @ascii b bytes cs hb _ ih =>
    rw [encode_cons, utf8EncodeChar_ofNat_toNat hb, List.singleton_append, List.filter_cons,
      List.filter_cons, ih]
  | above hne hpiece hc _ ih =>
    rw [encode_cons, List.filter_append, List.filter_append, filter_isAscii_of_le hpiece,
      filter_isAscii_of_le fun b ↦ le_of_mem_utf8EncodeChar hc, ih]

end CallSites.Text
