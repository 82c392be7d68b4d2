import Mathlib.Algebra.Ring.Nat
import CallSites.Proofs.Pairing

/-!
# The pass by characters

Texts are paired byte by byte. Read character by character the pass comes to the same state behind
every text: an ASCII character is its one byte, and the bytes of a longer character mean nothing to
the pass, so that together they are one plain unit as wide as the character. Right behind a
backslash the first of them is taken and the others are read inside the literal, where plain bytes
change nothing; the whole character would have been taken instead, and leaves the same mode.

A pass with a mode for what is escaped looks at every unit. Most would rather write a scan that
skips the unit behind a backslash unseen, `scanSkipping`. It is the same for bytes and for
characters, but between the two it is out of step inside every longer character that is escaped: the
scan of bytes skips the first byte only. As each of the scans is the pass in its own alphabet, and
the passes agree, so do the scans.
-/

namespace CallSites

open Text

theorem Sign.ofCode_of_le {n : Nat} (h : 0x80 ≤ n) : Sign.ofCode n = .plain := by
  rw [Sign.ofCode, if_neg (by omega), if_neg (by omega), if_neg (by omega), if_neg (by omega),
    if_neg (by omega), if_neg (by omega)]

namespace Pairing

variable {α : Type}

theorem State.read_append (A : Alphabet α) (s : State) (units more : List α) :
    s.read A (units ++ more) = (s.read A units).read A more :=
  List.foldl_append

/-- Two plain units in a row are one, as wide as both. -/
theorem State.step_plain_step_plain (s : State) (width width' : Nat) :
    (s.step .plain width).step .plain width' = s.step .plain (width + width') := by
  cases s with
  | mk offset mode waiting pairs =>
    cases mode <;> simp [State.step, State.parentheses, Mode.next, Nat.add_assoc]

/-- A run of plain units is one, as wide as all of them. -/
theorem State.read_of_plain (A : Alphabet α) (s : State) {units : List α} (hne : units ≠ [])
    (h : ∀ u ∈ units, A.sign u = .plain) :
    s.read A units = s.step .plain (units.map A.width).sum := by
  induction units generalizing s with
  | nil => exact absurd rfl hne
  | cons u units ih =>
    rw [State.read_cons, h u List.mem_cons_self]
    cases units with
    | nil => rfl
    | cons u' units =>
      rw [ih _ (List.cons_ne_nil u' units) fun d hd ↦ h d (List.mem_cons_of_mem u hd),
        State.step_plain_step_plain]
      rfl

/-- So is a run of bytes above ASCII. -/
theorem State.read_of_le (s : State) {bytes : List UInt8} (hne : bytes ≠ [])
    (h : ∀ b ∈ bytes, 0x80 ≤ b.toNat) : s.read .bytes bytes = s.step .plain bytes.length := by
  have hwidth : (bytes.map Alphabet.bytes.width).sum = bytes.length := by
    change (bytes.map fun _ ↦ 1).sum = _
    rw [List.map_const', List.sum_replicate_nat, Nat.mul_one]
  rw [s.read_of_plain .bytes hne fun b hb ↦ Sign.ofCode_of_le (h b hb), hwidth]

/-- **The bytes of a character are read as the character.** -/
theorem State.read_utf8EncodeChar (s : State) (c : Char) :
    s.read .bytes (String.utf8EncodeChar c) = s.step (.ofCode c.toNat) c.utf8Size := by
  by_cases hc : c.toNat < 0x80
  · have hsize : c.utf8Size = 1 := by
      rw [← String.length_utf8EncodeChar, utf8EncodeChar_of_lt hc, List.length_singleton]
    have hcode : (UInt8.ofNat c.toNat).toNat = c.toNat := by
      rw [UInt8.toNat_ofNat', Nat.mod_eq_of_lt (by omega)]
    rw [utf8EncodeChar_of_lt hc, hsize, State.read_cons, State.read_nil]
    change s.step (.ofCode (UInt8.ofNat c.toNat).toNat) 1 = _
    rw [hcode]
  · have hle : 0x80 ≤ c.toNat := Nat.le_of_not_lt hc
    rw [s.read_of_le String.utf8EncodeChar_ne_nil fun b hb ↦ le_of_mem_utf8EncodeChar hle hb,
      String.length_utf8EncodeChar, Sign.ofCode_of_le hle]

/-- **Bytes and characters bring the pass to the same state.** -/
theorem State.read_encode (s : State) (cs : List Char) :
    s.read .bytes (encode cs) = s.read .characters cs := by
  induction cs generalizing s with
  | nil => rfl
  | cons c cs ih =>
    rw [encode_cons, State.read_append, State.read_utf8EncodeChar, ih]
    rfl

theorem run_encode (cs : List Char) : run .bytes (encode cs) = run .characters cs :=
  State.read_encode {} cs

theorem offset_run_characters (cs : List Char) : (run .characters cs).offset = byteLength cs := by
  rw [← run_encode, offset_run_bytes, length_encode]

end Pairing

theorem pairs_eq_run (text : List Char) : pairs text = (Pairing.run .characters text).pairs := by
  rw [pairs, Pairing.pairsIn, Pairing.run_encode]

/-! ## Skipping what is escaped -/

/-- The mode in a literal of the given kind, or in none. -/
def Mode.within : Option Quote → Mode
  | none => .code
  | some q => .literal q

namespace Pairing

variable {α : Type}

/-- The pairs of some units, the earliest first, scanned from an offset on, in a literal or in none,
and with the parentheses that wait, the latest first. In a literal a backslash is skipped together
with the unit behind it, which is not looked at. -/
def scanSkipping (A : Alphabet α) (offset : Nat) (quote : Option Quote) (waiting : List Nat) :
    List α → List (Nat × Nat)
  | [] => []
  | u :: units =>
    match quote, A.sign u with
    | some q, .backslash =>
      match units with
      | [] => []
      | v :: units => scanSkipping A (offset + A.width u + A.width v) (some q) waiting units
    | some _, .lineEnd => scanSkipping A (offset + A.width u) none waiting units
    | some q, .quote q' =>
      scanSkipping A (offset + A.width u) (if q = q' then none else some q) waiting units
    | some q, _ => scanSkipping A (offset + A.width u) (some q) waiting units
    | none, .quote q => scanSkipping A (offset + A.width u) (some q) waiting units
    | none, .opening => scanSkipping A (offset + A.width u) none (offset :: waiting) units
    | none, .closing =>
      match waiting with
      | [] => scanSkipping A (offset + A.width u) none [] units
      | o :: waiting => (o, offset) :: scanSkipping A (offset + A.width u) none waiting units
    | none, _ => scanSkipping A (offset + A.width u) none waiting units

/-- **To skip what is escaped is to read it in a mode of its own.** -/
theorem State.pairs_read_eq (A : Alphabet α) (s : State) (quote : Option Quote)
    (hmode : s.mode = Mode.within quote) (units : List α) :
    (s.read A units).pairs =
      (scanSkipping A s.offset quote s.waiting units).reverse ++ s.pairs := by
  obtain ⟨offset, mode, waiting, pairs⟩ := s
  dsimp only at hmode ⊢
  subst hmode
  fun_induction scanSkipping A offset quote waiting units generalizing pairs with
  | case1 => rfl
  | case2 offset waiting u q hu =>
    rw [State.read_cons, hu]
    rfl
  | case3 offset waiting u q hu v units ih =>
    -- the unit behind the backslash is read too, but escaped, and leads back into the literal
    rw [State.read_cons, State.read_cons, hu]
    exact ih pairs
  | case4 offset waiting u units q hu ih =>
    rw [State.read_cons, hu]
    exact ih pairs
  | case5 offset waiting u units q q' hu ih =>
    have hnext : Mode.within (if q = q' then none else some q) =
        (Mode.literal q).next (.quote q') := by
      rw [Mode.next]
      split <;> rfl
    rw [hnext] at ih
    rw [State.read_cons, hu]
    exact ih pairs
  | case6 offset waiting u units q hbackslash hend hquote ih =>
    rw [State.read_cons]
    cases hu : A.sign u with
    | backslash => exact absurd hu hbackslash
    | lineEnd => exact absurd hu hend
    | quote q' => exact absurd hu (hquote q')
    | _ => exact ih pairs
  | case7 offset waiting u units q hu ih =>
    rw [State.read_cons, hu]
    exact ih pairs
  | case8 offset waiting u units hu ih =>
    rw [State.read_cons, hu]
    exact ih pairs
  | case9 offset u units hu ih =>
    rw [State.read_cons, hu]
    exact ih pairs
  | case10 offset u units hu o waiting ih =>
    rw [State.read_cons, hu, List.reverse_cons, List.append_assoc]
    exact ih _
  | case11 offset waiting u units hquote hopen hclose ih =>
    rw [State.read_cons]
    cases hu : A.sign u with
    | quote q => exact absurd hu (hquote q)
    | opening => exact absurd hu hopen
    | closing => exact absurd hu hclose
    | _ => exact ih pairs

theorem pairsIn_eq_scanSkipping (A : Alphabet α) (units : List α) :
    pairsIn A units = (scanSkipping A 0 none [] units).reverse := by
  rw [pairsIn, run_eq_read, State.pairs_read_eq A {} none rfl, List.append_nil]

end Pairing

/-- A pair begins with an opening parenthesis. -/
theorem exists_split_of_mem_pairs_opening {text : List Char} {o c : Nat}
    (h : (o, c) ∈ pairs text) :
    ∃ before after, text = before ++ '(' :: after ∧ byteLength before = o :=
  Pairing.exists_split_of_inCode (by decide) Sign.eq_of_ofCode_eq_opening
    ((Pairing.inCode_run .bytes (encode text)).2 (o, c) h).1

/-- **Bytes and characters are paired alike.** The partners of a text are those that a scan of its
bytes finds, which skips one byte behind a backslash in a literal. A scan of its characters, which
skips a whole character there, finds the same pairs at the same offsets. And what stands at the two
offsets of a pair are the characters `(` and `)`. -/
theorem partners_of_bytes_or_characters (text : List Char) :
    (∀ o c : Nat, (partners text)[o]? = some c ↔
      (o, c) ∈ Pairing.scanSkipping .bytes 0 none [] (encode text)) ∧
    Pairing.scanSkipping .bytes 0 none [] (encode text) =
      Pairing.scanSkipping .characters 0 none [] text ∧
    ∀ o c : Nat, (partners text)[o]? = some c →
      (∃ before after, text = before ++ '(' :: after ∧ byteLength before = o) ∧
      ∃ before after, text = before ++ ')' :: after ∧ byteLength before = c := by
  have hbytes : pairs text = (Pairing.scanSkipping .bytes 0 none [] (encode text)).reverse :=
    Pairing.pairsIn_eq_scanSkipping .bytes (encode text)
  have hcharacters : pairs text = (Pairing.scanSkipping .characters 0 none [] text).reverse := by
    rw [pairs_eq_run]
    exact Pairing.pairsIn_eq_scanSkipping .characters text
  refine ⟨fun o c ↦ ?_, List.reverse_inj.mp (hbytes.symm.trans hcharacters), fun o c h ↦ ?_⟩
  · rw [getElem?_partners, hbytes, List.mem_reverse]
  · rw [getElem?_partners] at h
    exact ⟨exists_split_of_mem_pairs_opening h, exists_split_of_mem_pairs h⟩

/-- The escaped character is two bytes long, and only the first of them is skipped as a byte. -/
example :
    Pairing.scanSkipping .characters 0 none [] ['"', '\\', 'é', '(', '"', 'f', '(', 'é', ')'] =
      [(7, 10)] := by
  decide

end CallSites
