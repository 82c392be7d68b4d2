import CallSites.Proofs.Characters
import CallSites.Proofs.Decoding
import CallSites.Proofs.LineByLine
import CallSites.Proofs.LineEndings

/-!
# Raw bytes and what is read of them

A file is decoded before it is read, and damaged characters are replaced by characters of another
length. Offsets in the text are then not offsets in the file, and it has to be said which
parenthesis of the one is which of the other. ASCII bytes come through in order, so the `k`-th of
the file is the `k`-th of the text: an ASCII byte is known by its *rank*, the number of ASCII bytes
before it.

That both are paired alike is seen in an alphabet where only ASCII bytes have a width. The pass over
it counts ranks in place of offsets, and a run of bytes above ASCII, damaged or not, is one plain
unit of no width; so file and text, which fall into the same pieces, bring it to the same state.
Line feeds and parentheses are ASCII, hence the lines that are reported are lines of the file.
-/

namespace CallSites

open Text

/-! ## Ranks -/

namespace Text

/-- The number of ASCII bytes before offset `n`. -/
def asciiRank (bytes : List UInt8) (n : Nat) : Nat :=
  (bytes.take n).countP isAscii

/-- Offset `n` of `bytes` and offset `m` of `more` hold the same ASCII byte, of the same rank. -/
structure SameAscii (bytes more : List UInt8) (n m : Nat) : Prop where
  byte : ∃ b, isAscii b ∧ bytes[n]? = some b ∧ more[m]? = some b
  rank : asciiRank bytes n = asciiRank more m

variable {bytes more : List UInt8}

theorem asciiRank_length (bytes more : List UInt8) :
    asciiRank (bytes ++ more) bytes.length = bytes.countP isAscii := by
  rw [asciiRank, List.take_left]

/-- The ASCII bytes before an offset are the first ones, as many as its rank says. -/
theorem filter_take_isAscii (bytes : List UInt8) (n : Nat) :
    (bytes.take n).filter isAscii = (bytes.filter isAscii).take (asciiRank bytes n) := by
  have hsplit :
      bytes.filter isAscii = (bytes.take n).filter isAscii ++ (bytes.drop n).filter isAscii := by
    rw [← List.filter_append, List.take_append_drop]
  rw [hsplit, asciiRank, List.countP_eq_length_filter, List.take_left]

/-- So line feeds before an offset are counted by its rank. -/
theorem count_feed_take (bytes : List UInt8) (n : Nat) :
    (bytes.take n).count 0x0A = ((bytes.filter isAscii).take (asciiRank bytes n)).count 0x0A := by
  rw [← filter_take_isAscii, List.count_filter (by decide)]

theorem SameAscii.count_feed_eq {n m : Nat} (h : SameAscii bytes more n m)
    (hascii : more.filter isAscii = bytes.filter isAscii) :
    (bytes.take n).count 0x0A = (more.take m).count 0x0A := by
  rw [count_feed_take bytes, count_feed_take more, hascii, h.rank]

theorem getElem?_filter_isAscii {n : Nat} {b : UInt8} (h : bytes[n]? = some b) (hb : isAscii b) :
    (bytes.filter isAscii)[asciiRank bytes n]? = some b := by
  obtain ⟨hlt, rfl⟩ := List.getElem?_eq_some_iff.mp h
  have hsplit : bytes.filter isAscii =
      (bytes.take n).filter isAscii ++ bytes[n] :: (bytes.drop (n + 1)).filter isAscii := by
    rw [← List.filter_cons_of_pos hb, ← List.drop_eq_getElem_cons hlt, ← List.filter_append,
      List.take_append_drop]
  rw [hsplit, asciiRank, List.countP_eq_length_filter, getElem?_append_cons_length]

theorem exists_getElem?_of_filter {r : Nat} {b : UInt8}
    (h : (bytes.filter isAscii)[r]? = some b) :
    ∃ n, bytes[n]? = some b ∧ asciiRank bytes n = r := by
  obtain ⟨hlt, hget⟩ := List.getElem?_eq_some_iff.mp h
  have hsplit := (List.take_append_drop r (bytes.filter isAscii)).symm
  rw [List.drop_eq_getElem_cons hlt, hget] at hsplit
  obtain ⟨before, rest, hbytes, hbefore, hrest⟩ := List.filter_eq_append_iff.mp hsplit
  obtain ⟨between, after, rfl, hbetween, -⟩ := List.filter_eq_cons_iff.mp hrest
  rw [← List.append_assoc] at hbytes
  refine ⟨(before ++ between).length, ?_, ?_⟩
  · rw [hbytes, getElem?_append_cons_length]
  · rw [hbytes, asciiRank_length, List.countP_append, List.countP_eq_zero.mpr hbetween,
      List.countP_eq_length_filter, hbefore, List.length_take_of_le (Nat.le_of_lt hlt),
      Nat.add_zero]

/-- Where all ASCII bytes are the same, each has its counterpart. -/
theorem exists_sameAscii (h : more.filter isAscii = bytes.filter isAscii) {m : Nat} {b : UInt8}
    (hm : more[m]? = some b) (hb : isAscii b) : ∃ n, SameAscii bytes more n m := by
  have hget := getElem?_filter_isAscii hm hb
  rw [h] at hget
  obtain ⟨n, hn, hrank⟩ := exists_getElem?_of_filter hget
  exact ⟨n, ⟨b, hb, hn, hm⟩, hrank⟩

end Text

/-! ## Pairs by rank -/

/-- Text as bytes of which only ASCII ones have a width. -/
def Alphabet.ascii : Alphabet UInt8 where
  sign b := .ofCode b.toNat
  width b := if isAscii b then 1 else 0

namespace Pairing

/-- A run of bytes above ASCII is one plain unit of no width. -/
theorem State.read_ascii_of_le (s : State) {bytes : List UInt8} (hne : bytes ≠ [])
    (h : ∀ b ∈ bytes, 0x80 ≤ b.toNat) : s.read .ascii bytes = s.step .plain 0 := by
  have hwidth : ∀ b ∈ bytes, Alphabet.ascii.width b = 0 := by
    intro b hb
    refine if_neg ?_
    rw [isAscii, decide_eq_true_eq]
    exact Nat.not_lt_of_le (h b hb)
  rw [s.read_of_plain .ascii hne fun b hb ↦ Sign.ofCode_of_le (h b hb),
    List.map_congr_left hwidth, List.map_const', List.sum_replicate_nat, Nat.mul_zero]

/-- **Bytes and text of the same pieces are paired alike by rank.** -/
theorem State.read_ascii_encode {bytes : List UInt8} {cs : List Char} (h : Alike bytes cs)
    (s : State) : s.read .ascii (encode cs) = s.read .ascii bytes := by
  induction h generalizing s with
  | nil => rfl
  | ascii hb _ ih =>
    rw [encode_cons, utf8EncodeChar_ofNat_toNat hb, List.singleton_append, State.read_cons,
      State.read_cons, ih]
  | above hne hpiece hc _ ih =>
    rw [encode_cons, State.read_append, State.read_append, s.read_ascii_of_le hne hpiece,
      s.read_ascii_of_le String.utf8EncodeChar_ne_nil fun b ↦ le_of_mem_utf8EncodeChar hc, ih]

/-- The pass that counts ASCII bytes is the pass over bytes with ranks for offsets. -/
theorem moved_run_ascii (bytes more : List UInt8) :
    State.Moved (asciiRank (bytes ++ more)) (run .bytes bytes) (run .ascii bytes) := by
  induction bytes using List.reverseRecOn generalizing more with
  | nil => exact ⟨rfl, rfl, rfl, rfl⟩
  | append_singleton bytes b ih =>
    rw [run_concat, run_concat, List.append_assoc, List.singleton_append]
    refine (ih (b :: more)).step (.ofCode b.toNat) ?_
    have hbehind : asciiRank (bytes ++ b :: more) (bytes.length + 1) =
        bytes.countP isAscii + if isAscii b then 1 else 0 := by
      rw [List.append_cons, ← List.length_concat (a := b), List.concat_eq_append, asciiRank_length,
        List.countP_append, List.countP_singleton]
    rw [offset_run_bytes, asciiRank_length]
    exact hbehind

theorem pairsIn_ascii (bytes : List UInt8) :
    pairsIn .ascii bytes =
      (pairsIn .bytes bytes).map fun p ↦ (asciiRank bytes p.1, asciiRank bytes p.2) := by
  have hmoved := moved_run_ascii bytes []
  rw [List.append_nil] at hmoved
  exact hmoved.pairs

/-- The offsets of a pair are those of parentheses. -/
theorem getElem?_of_mem_pairsIn {bytes : List UInt8} {p : Nat × Nat}
    (h : p ∈ pairsIn .bytes bytes) : bytes[p.1]? = some 0x28 ∧ bytes[p.2]? = some 0x29 := by
  obtain ⟨hopening, hclosing⟩ := (inCode_run .bytes bytes).2 p h
  exact ⟨getElem?_of_inCode Sign.eq_of_ofCode_eq_opening hopening,
    getElem?_of_inCode Sign.eq_of_ofCode_eq_closing hclosing⟩

end Pairing

/-- **The pairs of a text are, by rank, those of the bytes.** -/
theorem forall₂_sameAscii_pairs {bytes : List UInt8} {text : List Char} (h : Alike bytes text) :
    List.Forall₂ (fun p q ↦ SameAscii bytes (encode text) p.1 q.1 ∧
      SameAscii bytes (encode text) p.2 q.2) (Pairing.pairsIn .bytes bytes) (pairs text) := by
  have hranks : Pairing.pairsIn .ascii bytes = Pairing.pairsIn .ascii (encode text) :=
    congrArg Pairing.State.pairs (Pairing.State.read_ascii_encode h {}).symm
  rw [Pairing.pairsIn_ascii, Pairing.pairsIn_ascii, ← List.forall₂_eq_eq_eq,
    List.forall₂_map_left_iff, List.forall₂_map_right_iff, List.forall₂_iff_zip] at hranks
  refine List.forall₂_iff_zip.mpr ⟨hranks.1, ?_⟩
  intro p q hpq
  obtain ⟨hp, hq⟩ := List.of_mem_zip hpq
  obtain ⟨hopening, hclosing⟩ := Prod.mk.inj (hranks.2 hpq)
  have hbytes := Pairing.getElem?_of_mem_pairsIn hp
  have htext := Pairing.getElem?_of_mem_pairsIn hq
  exact ⟨⟨⟨0x28, by decide, hbytes.1, htext.1⟩, hopening⟩,
    ⟨⟨0x29, by decide, hbytes.2, htext.2⟩, hclosing⟩⟩

/-! ## Lines by rank -/

/-- The parenthesis at offset `m` opens the list of a call: it stands behind the name and blanks. -/
def OpensList (name : String) (text : List Char) (m : Nat) : Prop :=
  ∃ before blanks after, text = before ++ (name.toList ++ blanks) ++ '(' :: after ∧
    (∀ c ∈ blanks, isBlank c) ∧ byteLength (before ++ (name.toList ++ blanks)) = m

theorem OpensList.getElem? {name : String} {text : List Char} {m : Nat}
    (h : OpensList name text m) : (encode text)[m]? = some 0x28 := by
  obtain ⟨before, blanks, after, rfl, -, rfl⟩ := h
  rw [encode_append, ← length_encode]
  exact getElem?_append_cons_length _ (encode after) 0x28

theorem count_feed_encode (cs : List Char) : (encode cs).count 0x0A = cs.count '\n' := by
  induction cs with
  | nil => rfl
  | cons c cs ih =>
    rw [encode_cons, List.count_append, ih]
    by_cases hc : c = '\n'
    · subst hc
      rw [List.count_cons_self, Nat.add_comm]
      rfl
    · rw [List.count_cons_of_ne hc, List.count_eq_zero.mpr (feed_not_mem_utf8EncodeChar hc),
        Nat.zero_add]

/-- The line of a call is told by the line feeds before its parenthesis. -/
theorem exists_opensList_of_mem_calls {keywords : Keywords} {file : String} {text : List Char}
    {call : Call} (h : call ∈ calls keywords file text) :
    ∃ m, OpensList call.name text m ∧
      call.location.line = ((encode text).take m).count 0x0A + 1 := by
  have hpos := (line_of_mem_calls h).1
  obtain ⟨b, line, i, hget, hi, hname⟩ := exists_invocation_of_mem_calls h
  obtain ⟨before, behind, htext, -, hcount, -, hfeed⟩ := exists_split_of_getElem?_linesFrom hget
  obtain ⟨head, ⟨front, rest, hline, -, blanks, after, hrest, -, -, -, hblanks, -⟩, hlist, -⟩ := hi
  have hhead : head.name = call.name.toList := by
    rw [← hname, hlist, String.toList_ofList]
  rw [hrest, hhead] at hline
  have hsplit :
      text = before ++ front ++ (call.name.toList ++ blanks) ++ '(' :: (after ++ behind) := by
    rw [htext, hline]
    simp only [List.append_assoc, List.cons_append]
  refine ⟨_, ⟨before ++ front, blanks, after ++ behind, hsplit, hblanks, rfl⟩, ?_⟩
  -- the line holds no line feed, so all of them stand before it
  have hnone : '\n' ∉ front ++ (call.name.toList ++ blanks) := by
    intro hmem
    rw [hline, ← List.append_assoc, ← List.append_assoc, List.append_assoc front] at hfeed
    exact hfeed (List.mem_append_left _ hmem)
  rw [hsplit, encode_append, ← length_encode, List.take_left, count_feed_encode, List.append_assoc,
    List.count_append, hcount, List.count_eq_zero.mpr hnone]
  omega

/-- **Damaged characters disturb neither parentheses nor lines.** Bytes that are the form of a text
come back from decoding. Whatever the bytes, decoding keeps the ASCII ones, in order; their pairs
are those of the decoded text, parenthesis for parenthesis by rank; line feeds before bytes of one
rank are equally many; and each call is reported on the line of the file on which its parenthesis
stands. -/
theorem decode_keeps_pairs_and_lines (bytes : List UInt8) :
    (∀ cs, bytes = encode cs → encode (decode bytes) = bytes) ∧
      (encode (decode bytes)).filter isAscii = bytes.filter isAscii ∧
      List.Forall₂ (fun p q ↦ SameAscii bytes (encode (decode bytes)) p.1 q.1 ∧
        SameAscii bytes (encode (decode bytes)) p.2 q.2)
          (Pairing.pairsIn .bytes bytes) (pairs (decode bytes)) ∧
      (∀ n m, SameAscii bytes (encode (decode bytes)) n m →
        (bytes.take n).count 0x0A = ((encode (decode bytes)).take m).count 0x0A) ∧
      ∀ keywords file, ∀ call ∈ calls keywords file (decode bytes), ∃ n m,
        SameAscii bytes (encode (decode bytes)) n m ∧ bytes[n]? = some 0x28 ∧
        OpensList call.name (decode bytes) m ∧
        call.location.line = (bytes.take n).count 0x0A + 1 := by
  have halike := alike_decode bytes
  have hascii := halike.filter_isAscii
  refine ⟨?_, hascii, forall₂_sameAscii_pairs halike, fun n m h ↦ h.count_feed_eq hascii, ?_⟩
  · rintro cs rfl
    rw [decode_encode]
  · intro keywords file call hcall
    obtain ⟨m, hopens, hline⟩ := exists_opensList_of_mem_calls hcall
    obtain ⟨n, hsame⟩ := exists_sameAscii hascii hopens.getElem? (by decide)
    obtain ⟨b, -, hn, hm⟩ := hsame.byte
    rw [hopens.getElem?] at hm
    exact ⟨n, m, hsame, hn.trans hm.symm, hopens, by rw [hline, hsame.count_feed_eq hascii]⟩

/-- A character cut short behind a backslash and before a parenthesis in a literal, one before a
name on the next line, and one before the quote that ends a literal. -/
def cutShort : List UInt8 :=
  [0x27, 0x5C, 0xC3, 0x28, 0x27, 0x0A, 0xF0, 0x9F, 0x66, 0x28, 0x22, 0xE2, 0x82, 0x22, 0x29, 0x3B]

/-- The second line of the text that is read of them. -/
def cutShortLine : List Char :=
  ['\uFFFD', 'f', '(', '"', '\uFFFD', '"', ')', ';']

theorem mem_calls_cutShort : ⟨"f", "a.c", 2⟩ ∈ calls default "a.c" (decode cutShort) := by
  let i : Invocation := ⟨"f", 3, 4, 11, by decide, by decide⟩
  have hoccurs : i.Occurs cutShortLine := by
    refine ⟨⟨['f'], 3, 4⟩, ?_, rfl, rfl, rfl, getElem?_partners.mpr (by decide)⟩
    refine ⟨['\uFFFD'], cutShortLine.drop 1, rfl, ?_, [], cutShortLine.drop 3, rfl,
      List.cons_ne_nil _ _, ?_, ?_, nofun, rfl, rfl⟩
    · rintro c ⟨⟩
      decide +kernel
    · exact List.forall_mem_singleton.mpr (by decide)
    · rintro c ⟨⟩
      decide
  have hfollowed : i.FollowedBy cutShortLine ';' :=
    ⟨cutShortLine.take 7, [], [], rfl, by decide, nofun⟩
  have hmem : i ∈ (Index.ofText cutShortLine).statementsFrom 0 :=
    ((captures_statementsFrom _).mem_iff i).mpr
      ⟨hoccurs, i, hoccurs, hfollowed, Nat.le_refl _, Nat.le_refl _⟩
  have htext : decode cutShort = ['\'', '\\', '\uFFFD', '(', '\''] ++ '\n' :: cutShortLine := by
    decide
  rw [calls, htext, lines_append_feed (by decide), lines_of_not_mem (by decide) (by decide)]
  refine List.mem_flatMap.mpr ⟨(cutShortLine, 2), by decide, List.mem_map.mpr ⟨"f", ?_, rfl⟩⟩
  rw [calledOn_eq]
  exact List.mem_map.mpr ⟨i, List.mem_filter.mpr ⟨hmem, by decide⟩, rfl⟩

theorem decode_keeps_pairs_and_lines_cutShort :
    Pairing.pairsIn .bytes cutShort = [(9, 14)] ∧ pairs (decode cutShort) = [(12, 18)] ∧
      SameAscii cutShort (encode (decode cutShort)) 9 12 ∧
      SameAscii cutShort (encode (decode cutShort)) 14 18 ∧
      (∃ n m, SameAscii cutShort (encode (decode cutShort)) n m ∧ cutShort[n]? = some 0x28 ∧
        OpensList "f" (decode cutShort) m ∧ 2 = (cutShort.take n).count 0x0A + 1) ∧
      encode (decode (encode cutShortLine)) = encode cutShortLine := by
  have hraw : Pairing.pairsIn .bytes cutShort = [(9, 14)] := by decide
  have hread : pairs (decode cutShort) = [(12, 18)] := by decide
  obtain ⟨-, -, hpairs, -, hcalls⟩ := decode_keeps_pairs_and_lines cutShort
  rw [hraw, hread, List.forall₂_cons] at hpairs
  have hcall := hcalls default "a.c" ⟨"f", "a.c", 2⟩ mem_calls_cutShort
  have hform := (decode_keeps_pairs_and_lines (encode cutShortLine)).1 cutShortLine rfl
  exact ⟨hraw, hread, hpairs.1.1, hpairs.1.2, hcall, hform⟩

end CallSites
