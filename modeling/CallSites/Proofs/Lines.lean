import CallSites.Text.Lines
import CallSites.Proofs.Calls

/-!
# A line by itself and inside its text

Declarations are read off the pairs of a whole text, calls off the pairs of each line alone. The two
passes over a line start differently: inside the text, parentheses of earlier lines may be waiting,
and a closing parenthesis may meet one of those. They still pair the line's own parentheses alike,
because the stack keeps the line's own on top of the older ones.

That the line begins in code is what has to be promised. A literal ends with its line, so this only
fails where a backslash inside a literal takes the line feed with it.
-/

namespace CallSites

open Text

/-! ## Lines and where they start -/

namespace Text

/-- The lines of a text that stands at offset `offset`, each with the offset of its first byte. -/
def linesFrom (offset : Nat) (cs : List Char) : List (Nat × List Char) :=
  if cs = [] then []
  else
    match _h : cs.dropWhile (· != '\n') with
    | [] => [(offset, cs)]
    | _ :: rest =>
      (offset, stripReturn (cs.takeWhile (· != '\n'))) ::
        linesFrom (offset + byteLength (cs.takeWhile (· != '\n')) + 1) rest
termination_by cs.length
decreasing_by
  have hle := (List.dropWhile_suffix (l := cs) (· != '\n')).length_le
  rw [_h, List.length_cons] at hle
  omega

theorem bne_feed_of_not_mem {cs : List Char} (h : '\n' ∉ cs) : ∀ c ∈ cs, c != '\n' := by
  intro c hc
  rw [bne_iff_ne]
  rintro rfl
  exact h hc

/-- A text without a line feed is one line. -/
theorem linesFrom_of_not_mem (offset : Nat) (cs : List Char) (hne : cs ≠ []) (h : '\n' ∉ cs) :
    linesFrom offset cs = [(offset, cs)] := by
  have hrest := List.dropWhile_eq_nil_iff.mpr (bne_feed_of_not_mem h)
  rw [linesFrom, if_neg hne]
  split
  · rfl
  · rename_i c rest hcons
    rw [hrest] at hcons
    exact absurd hcons.symm (List.cons_ne_nil c rest)

/-- Up to its first line feed a text is one line; the others stand behind it. -/
theorem linesFrom_append_feed (offset : Nat) (cs rest : List Char) (h : '\n' ∉ cs) :
    linesFrom offset (cs ++ '\n' :: rest) =
      (offset, stripReturn cs) :: linesFrom (offset + byteLength cs + 1) rest := by
  have hfeed : ∀ c ∈ ('\n' :: rest).head?, (c != '\n') = false := by
    rintro c ⟨⟩
    decide
  obtain ⟨htake, hdrop⟩ := takeWhile_dropWhile_append (bne_feed_of_not_mem h) hfeed
  rw [linesFrom, if_neg (List.append_ne_nil_of_right_ne_nil cs (List.cons_ne_nil _ rest))]
  split
  · rename_i hnil
    rw [hdrop] at hnil
    exact absurd hnil (List.cons_ne_nil _ rest)
  · rename_i c rest' hcons
    rw [hdrop, List.cons.injEq] at hcons
    rw [htake, hcons.2]

theorem map_snd_linesFrom (offset : Nat) (cs : List Char) :
    (linesFrom offset cs).map Prod.snd = lines cs := by
  fun_induction linesFrom offset cs with
  | case1 offset => rw [lines_nil, List.map_nil]
  | case2 offset cs hne hrest =>
    rw [lines, if_neg hne]
    split
    · rfl
    · rename_i c rest h
      rw [hrest] at h
      exact absurd h.symm (List.cons_ne_nil c rest)
  | case3 offset cs hne c rest hrest ih =>
    rw [lines, if_neg hne]
    split
    · rename_i h
      rw [hrest] at h
      exact absurd h (List.cons_ne_nil c rest)
    · rename_i d rest' h
      rw [hrest, List.cons.injEq] at h
      rw [List.map_cons, ih, h.2]

theorem lines_append_feed {cs : List Char} (h : '\n' ∉ cs) (rest : List Char) :
    lines (cs ++ '\n' :: rest) = stripReturn cs :: lines rest := by
  rw [← map_snd_linesFrom 0, linesFrom_append_feed 0 cs rest h, List.map_cons, map_snd_linesFrom]

theorem lines_of_not_mem {cs : List Char} (hne : cs ≠ []) (h : '\n' ∉ cs) : lines cs = [cs] := by
  rw [← map_snd_linesFrom 0, linesFrom_of_not_mem 0 cs hne h, List.map_singleton]

theorem lines_append_return {cs : List Char} (h : '\n' ∉ cs) (rest : List Char) :
    lines (cs ++ '\r' :: '\n' :: rest) = cs :: lines rest := by
  have hreturn : '\n' ∉ cs ++ ['\r'] := by
    rw [List.mem_append, List.mem_singleton]
    exact not_or.mpr ⟨h, by decide⟩
  rw [List.append_cons, lines_append_feed hreturn, stripReturn, if_pos List.getLast?_concat,
    List.dropLast_concat]

theorem exists_stripReturn_append (line : List Char) :
    ∃ ending, line = stripReturn line ++ ending := by
  rw [stripReturn]
  split
  · rename_i h
    obtain ⟨front, hfront⟩ := List.getLast?_eq_some_iff.mp h
    exact ⟨['\r'], by rw [hfront, List.dropLast_concat]⟩
  · exact ⟨[], (List.append_nil line).symm⟩

/-- The line number `k`, from zero, stands at its offset behind `k` line feeds, behind nothing or
right behind one of them, and holds none. -/
theorem exists_split_of_getElem?_linesFrom {offset b k : Nat} {cs line : List Char}
    (h : (linesFrom offset cs)[k]? = some (b, line)) :
    ∃ before after, cs = before ++ (line ++ after) ∧ b = offset + byteLength before ∧
      before.count '\n' = k ∧ (before = [] ∨ ∃ front, before = front ++ ['\n']) ∧ '\n' ∉ line := by
  fun_induction linesFrom offset cs generalizing k with
  | case1 offset => exact absurd h nofun
  | case2 offset cs hne hrest =>
    rw [List.getElem?_singleton, Option.ite_none_right_eq_some, Option.some_inj,
      Prod.mk.injEq] at h
    obtain ⟨rfl, rfl, rfl⟩ := h
    refine ⟨[], [], (List.append_nil cs).symm, rfl, rfl, .inl rfl, fun hmem ↦ ?_⟩
    rw [List.dropWhile_eq_nil_iff] at hrest
    exact absurd (hrest _ hmem) (by decide)
  | case3 offset cs hne c rest hrest ih =>
    have hfeed : c = '\n' := by
      have hhead := List.head?_dropWhile_not (· != '\n') cs
      rw [hrest] at hhead
      simpa using hhead
    rw [hfeed] at hrest
    have hcs : cs = cs.takeWhile (· != '\n') ++ '\n' :: rest := by
      rw [← hrest, List.takeWhile_append_dropWhile]
    have hnone : '\n' ∉ cs.takeWhile (· != '\n') := fun hmem ↦
      absurd (List.mem_takeWhile_imp hmem) (by decide)
    rcases k with _ | k
    · rw [List.getElem?_cons_zero, Option.some_inj, Prod.mk.injEq] at h
      obtain ⟨rfl, rfl⟩ := h
      obtain ⟨ending, hending⟩ := exists_stripReturn_append (cs.takeWhile (· != '\n'))
      refine ⟨[], ending ++ '\n' :: rest, ?_, rfl, rfl, .inl rfl, fun hmem ↦ hnone ?_⟩
      · rw [List.nil_append, ← List.append_assoc, ← hending, ← hcs]
      · rw [hending]
        exact List.mem_append_left ending hmem
    · obtain ⟨before, after, hsplit, hb, hcount, hbefore, hline⟩ := ih h
      refine ⟨cs.takeWhile (· != '\n') ++ '\n' :: before, after, ?_, ?_, ?_, .inr ?_, hline⟩
      · rw [List.append_assoc, List.cons_append, ← hsplit, ← hcs]
      · rw [hb, byteLength_append, byteLength_cons]
        change _ = offset + (_ + (1 + _))
        omega
      · rw [List.count_append, List.count_eq_zero.mpr hnone, List.count_cons_self, hcount,
          Nat.zero_add]
      · rcases hbefore with rfl | ⟨front, rfl⟩
        · exact ⟨_, rfl⟩
        · exact ⟨cs.takeWhile (· != '\n') ++ '\n' :: front, by rw [List.append_assoc]; rfl⟩

/-- A line stands at its offset, behind nothing or behind a line feed, and holds no line feed. -/
theorem exists_split_of_mem_linesFrom {offset b : Nat} {cs line : List Char}
    (h : (b, line) ∈ linesFrom offset cs) :
    ∃ before after, cs = before ++ (line ++ after) ∧ b = offset + byteLength before ∧
      (before = [] ∨ ∃ front, before = front ++ ['\n']) ∧ '\n' ∉ line := by
  obtain ⟨k, hk⟩ := List.mem_iff_getElem?.mp h
  obtain ⟨before, after, hsplit, hb, -, hbefore, hline⟩ := exists_split_of_getElem?_linesFrom hk
  exact ⟨before, after, hsplit, hb, hbefore, hline⟩

end Text

/-! ## Line feeds that count -/

/-- Right behind a backslash in a literal, where the next unit is taken whatever it is. -/
def Mode.isEscaped : Mode → Bool
  | .escaped _ => true
  | _ => false

/-- No backslash in a literal takes a line feed with it. -/
def LiteralsEndWithLines (text : List Char) : Prop :=
  ∀ n < (encode text).length, (encode text)[n]? = some 0x0A →
    (Pairing.run .bytes ((encode text).take n)).mode.isEscaped = false

instance (text : List Char) : Decidable (LiteralsEndWithLines text) :=
  inferInstanceAs (Decidable (∀ n < _, _))

theorem LiteralsEndWithLines.isEscaped_run {text : List Char} (h : LiteralsEndWithLines text)
    {bytes more : List UInt8} (htext : encode text = bytes ++ 0x0A :: more) :
    (Pairing.run .bytes bytes).mode.isEscaped = false := by
  have hlt : bytes.length < (encode text).length := by
    rw [htext, List.length_append, List.length_cons]
    omega
  have hget : (encode text)[bytes.length]? = some 0x0A := by
    rw [htext, getElem?_append_cons_length]
  have hmode := h bytes.length hlt hget
  rwa [htext, List.take_left] at hmode

/-- Then every line begins in code. -/
theorem LiteralsEndWithLines.mode_run {text before after : List Char}
    (h : LiteralsEndWithLines text) (htext : text = before ++ after)
    (hbefore : before = [] ∨ ∃ front, before = front ++ ['\n']) :
    (Pairing.run .bytes (encode before)).mode = .code := by
  rcases hbefore with rfl | ⟨front, rfl⟩
  · rfl
  · have hfeed : encode ['\n'] = [0x0A] := by decide
    have henc : encode text = encode front ++ 0x0A :: encode after := by
      rw [htext, encode_append, encode_append, hfeed, List.append_assoc, List.singleton_append]
    have hmode := h.isEscaped_run henc
    rw [encode_append, hfeed, Pairing.run_concat, Pairing.State.step_mode]
    cases hm : (Pairing.run .bytes (encode front)).mode with
    | code => rfl
    | literal q => rfl
    | escaped q =>
      rw [hm] at hmode
      exact absurd hmode.symm Bool.false_ne_true

namespace Pairing

variable {α : Type} {b : Nat} {s t : State}

/-! ## Two passes over a line -/

/-- `t` is the pass over a line alone and `s` the pass over it at offset `b` of a text: below the
line's own parentheses, older ones may wait in `s`, and they account for all pairs that `t` lacks.
-/
structure State.Shifted (b : Nat) (t s : State) : Prop where
  offset : s.offset = b + t.offset
  mode : s.mode = t.mode
  waiting : ∃ old, s.waiting = t.waiting.map (b + ·) ++ old ∧ ∀ o ∈ old, o < b
  pairs : s.pairs.filter (fun p ↦ decide (b ≤ p.1)) = t.pairs.map fun p ↦ (b + p.1, b + p.2)

theorem State.Shifted.step (h : State.Shifted b t s) (sign : Sign) (width : Nat) :
    State.Shifted b (t.step sign width) (s.step sign width) := by
  obtain ⟨old, hwaiting, hold⟩ := h.waiting
  have hoffset : (s.step sign width).offset = b + (t.step sign width).offset := by
    rw [State.step_offset, State.step_offset, h.offset, Nat.add_assoc]
  have hmode : (s.step sign width).mode = (t.step sign width).mode := by
    rw [State.step_mode, State.step_mode, h.mode]
  rcases s.step_cases sign width with
    ⟨hcode, hsign, hsw, hsp⟩ | ⟨o, rest, hcode, hsign, hs, hsw, hsp⟩ | ⟨hguard, hsw, hsp⟩ <;>
  rcases t.step_cases sign width with
    ⟨hcode', hsign', htw, htp⟩ | ⟨o', rest', hcode', hsign', ht, htw, htp⟩ | ⟨hguard', htw, htp⟩
  · refine ⟨hoffset, hmode, ⟨old, ?_, hold⟩, by rw [hsp, htp, h.pairs]⟩
    rw [hsw, htw, hwaiting, h.offset]
    rfl
  · exact absurd (hsign.symm.trans hsign') nofun
  · exact absurd hsign (hguard' (h.mode ▸ hcode)).1
  · exact absurd (hsign.symm.trans hsign') nofun
  · -- both close a parenthesis of the line
    rw [hs, ht, List.map_cons, List.cons_append, List.cons.injEq] at hwaiting
    refine ⟨hoffset, hmode, ⟨old, by rw [hsw, htw, hwaiting.2], hold⟩, ?_⟩
    rw [hsp, htp, List.filter_cons_of_pos (by rw [hwaiting.1, decide_eq_true_eq]; omega), h.pairs,
      List.map_cons, hwaiting.1, h.offset]
  · -- alone, the line has nothing to close: what is closed is older than the line
    rw [hs, (hguard' (h.mode ▸ hcode)).2 hsign, List.map_nil, List.nil_append] at hwaiting
    rw [← hwaiting] at hold
    have ho : o < b := hold o List.mem_cons_self
    refine ⟨hoffset, hmode, ⟨rest, ?_, fun w hw ↦ hold w (List.mem_cons_of_mem o hw)⟩, ?_⟩
    · rw [hsw, htw, (hguard' (h.mode ▸ hcode)).2 hsign, List.map_nil, List.nil_append]
    · rw [hsp, htp, List.filter_cons_of_neg (by rw [decide_eq_true_eq]; omega), h.pairs]
  · exact absurd hsign' (hguard (h.mode ▸ hcode')).1
  · rw [(hguard (h.mode ▸ hcode')).2 hsign', ht] at hwaiting
    exact absurd hwaiting nofun
  · exact ⟨hoffset, hmode, ⟨old, by rw [hsw, htw, hwaiting], hold⟩, by rw [hsp, htp, h.pairs]⟩

theorem State.Shifted.read (A : Alphabet α) (h : State.Shifted b t s) (units : List α) :
    State.Shifted b (t.read A units) (s.read A units) := by
  induction units generalizing s t with
  | nil => exact h
  | cons u units ih => exact ih (h.step (A.sign u) (A.width u))

/-- Where a line begins, nothing has happened yet that the line could tell. -/
theorem shifted_of_mode {bytes : List UInt8} (h : (run .bytes bytes).mode = .code) :
    State.Shifted bytes.length {} (run .bytes bytes) := by
  have hwell := wellNested_run_bytes bytes
  have hoffset := offset_run_bytes bytes
  refine ⟨hoffset, h, ⟨_, rfl, fun o ho ↦ ?_⟩, ?_⟩
  · rw [← hoffset]
    exact hwell.waiting_lt o ho
  · rw [List.map_nil, List.filter_eq_nil_iff]
    intro p hp
    have hlt := hwell.pair_lt p hp
    rw [decide_eq_true_eq]
    omega

/-- Reading on adds pairs that end later. -/
theorem State.exists_pairs_read (A : Alphabet α) (s : State) (units : List α) :
    s.offset ≤ (s.read A units).offset ∧
      ∃ new, (s.read A units).pairs = new ++ s.pairs ∧ ∀ p ∈ new, s.offset ≤ p.2 := by
  refine State.read_induction (P := fun t ↦ s.offset ≤ t.offset ∧
    ∃ new, t.pairs = new ++ s.pairs ∧ ∀ p ∈ new, s.offset ≤ p.2) ?_ ?_ units
  swap
  · exact ⟨Nat.le_refl _, [], rfl, nofun⟩
  rintro t u ⟨hle, new, hpairs, hnew⟩
  refine ⟨Nat.le_trans hle (Nat.le_add_right _ _), ?_⟩
  rcases t.step_cases (A.sign u) (A.width u) with
    ⟨-, -, -, hp⟩ | ⟨o, rest, -, -, -, -, hp⟩ | ⟨-, -, hp⟩
  · exact ⟨new, by rw [hp, hpairs], hnew⟩
  · refine ⟨(o, t.offset) :: new, by rw [hp, hpairs, List.cons_append], fun p hmem ↦ ?_⟩
    rcases List.mem_cons.mp hmem with rfl | hmem
    · exact hle
    · exact hnew p hmem
  · exact ⟨new, by rw [hp, hpairs], hnew⟩

end Pairing

/-! ## The pairs of a line -/

/-- **The pairs of a line are the pairs of the text that lie in it.** -/
theorem pairs_line_eq {text before line after : List Char}
    (htext : text = before ++ (line ++ after))
    (hmode : (Pairing.run .bytes (encode before)).mode = .code) :
    pairs line = ((pairs text).filter fun p ↦
      decide (byteLength before ≤ p.1 ∧ p.2 < byteLength before + byteLength line)).map
        fun p ↦ (p.1 - byteLength before, p.2 - byteLength before) := by
  -- up to the end of the line the two passes correspond
  have hshift := (Pairing.shifted_of_mode hmode).read .bytes (encode line)
  rw [← Pairing.run_eq_read, ← Pairing.run_append, length_encode] at hshift
  have hwell := Pairing.wellNested_run_bytes (encode before ++ encode line)
  have hoffset := Pairing.offset_run_bytes (encode before ++ encode line)
  rw [List.length_append, length_encode, length_encode] at hoffset
  -- and what is paired behind it ends behind it
  obtain ⟨-, new, hpairs, hnew⟩ :=
    (Pairing.run .bytes (encode before ++ encode line)).exists_pairs_read .bytes (encode after)
  have htextpairs :
      pairs text = new ++ (Pairing.run .bytes (encode before ++ encode line)).pairs := by
    rw [pairs, Pairing.pairsIn, htext, encode_append, encode_append, ← List.append_assoc,
      Pairing.run_append, hpairs]
  have hfilter : (pairs text).filter (fun p ↦
      decide (byteLength before ≤ p.1 ∧ p.2 < byteLength before + byteLength line)) =
        (pairs line).map fun p ↦ (byteLength before + p.1, byteLength before + p.2) := by
    refine Eq.trans ?_ hshift.pairs
    rw [htextpairs, List.filter_append, List.filter_eq_nil_iff.mpr, List.nil_append]
    · refine List.filter_congr fun p hp ↦ decide_eq_decide.mpr ?_
      have hlt := hwell.pair_lt p hp
      omega
    · intro p hp
      have hle := hnew p hp
      rw [decide_eq_true_eq]
      omega
  rw [hfilter, List.map_map]
  symm
  refine (List.map_congr_left fun p _ ↦ ?_).trans (List.map_id _)
  simp

/-- A line feed stands between the two offsets. -/
def SpansLines (text : List Char) (o c : Nat) : Prop :=
  ∃ before after, text = before ++ '\n' :: after ∧ o < byteLength before ∧ byteLength before < c

section Line

variable {text line : List Char} {b : Nat}

theorem LiteralsEndWithLines.pairs_eq (h : LiteralsEndWithLines text)
    (hline : (b, line) ∈ linesFrom 0 text) :
    pairs line = ((pairs text).filter fun p ↦
      decide (b ≤ p.1 ∧ p.2 < b + byteLength line)).map fun p ↦ (p.1 - b, p.2 - b) := by
  obtain ⟨before, after, htext, hb, hbefore, -⟩ := exists_split_of_mem_linesFrom hline
  rw [hb, Nat.zero_add]
  exact pairs_line_eq htext (h.mode_run htext hbefore)

/-- A pair of a line is a pair of the text, found at the line's place, that stays on the line. -/
theorem LiteralsEndWithLines.of_mem_pairs (h : LiteralsEndWithLines text)
    (hline : (b, line) ∈ linesFrom 0 text) {o c : Nat} (hp : (o, c) ∈ pairs line) :
    (b + o, b + c) ∈ pairs text ∧ ¬SpansLines text (b + o) (b + c) := by
  obtain ⟨before, after, htext, hb, -, hfeed⟩ := exists_split_of_mem_linesFrom hline
  rw [Nat.zero_add] at hb
  have hlt := lt_byteLength_of_mem_pairs hp
  constructor
  · rw [h.pairs_eq hline, List.mem_map] at hp
    obtain ⟨⟨o', c'⟩, hmem, heq⟩ := hp
    rw [List.mem_filter, decide_eq_true_eq] at hmem
    rw [Prod.mk.injEq] at heq
    have hlt' := lt_of_mem_pairs hmem.1
    have ho : b + o = o' := by omega
    have hc : b + c = c' := by omega
    rw [ho, hc]
    exact hmem.1
  · rintro ⟨front, rest, hfront, ho, hc⟩
    have hsplit := htext.symm.trans hfront
    exact hfeed (mem_of_byteLength_between hsplit (by omega) (by omega))

/-- So a pair that spans lines is not in the index of the line it opens on. -/
theorem LiteralsEndWithLines.ne_of_spansLines (h : LiteralsEndWithLines text)
    (hline : (b, line) ∈ linesFrom 0 text) {o c : Nat} (hpair : (o, c) ∈ pairs text)
    (hspans : SpansLines text o c) {p : Nat × Nat} (hp : p ∈ pairs line) : b + p.1 ≠ o := by
  rintro rfl
  obtain ⟨hmem, hstays⟩ := h.of_mem_pairs hline hp
  rw [eq_of_mem_pairs hpair hmem] at hspans
  exact hstays hspans

end Line

theorem exists_invocation_of_mem_calls {keywords : Keywords} {file : String} {text : List Char}
    {call : Call} (h : call ∈ calls keywords file text) :
    ∃ b line i, (linesFrom 0 text)[call.location.line - 1]? = some (b, line) ∧
      Invocation.Occurs i line ∧ i.name = call.name := by
  rw [calls, List.mem_flatMap] at h
  obtain ⟨⟨line, number⟩, hline, hcall⟩ := h
  rw [List.mk_mem_zipIdx_iff_le_and_getElem?_sub, ← map_snd_linesFrom 0, List.getElem?_map,
    Option.map_eq_some_iff] at hline
  obtain ⟨-, ⟨b, line'⟩, hget, rfl⟩ := hline
  rw [List.mem_map] at hcall
  obtain ⟨name, hname, rfl⟩ := hcall
  rw [calledOn_eq, List.mem_map] at hname
  obtain ⟨i, hi, rfl⟩ := hname
  have hcaptured := (captures_statementsFrom _).mem_iff i |>.mp (List.mem_filter.mp hi).1
  exact ⟨b, line', i, hget, hcaptured.1, rfl⟩

/-- **Line index and text index agree.** Each line is found at its offset `b`; its pairs are those
pairs of the text that lie in it, moved by `b`; a pair that spans lines is in the index of no line,
and no invocation of a line opens with it. So each recorded call has its arguments closed on its own
line. -/
theorem lines_agree_with_text (text : List Char) (h : LiteralsEndWithLines text) :
    (linesFrom 0 text).map Prod.snd = lines text ∧
      (∀ b line, (b, line) ∈ linesFrom 0 text →
        (∃ before after, text = before ++ (line ++ after) ∧ byteLength before = b) ∧
        pairs line = ((pairs text).filter fun p ↦
          decide (b ≤ p.1 ∧ p.2 < b + byteLength line)).map (fun p ↦ (p.1 - b, p.2 - b)) ∧
        ∀ o c, (o, c) ∈ pairs text → SpansLines text o c →
          (∀ p ∈ pairs line, b + p.1 ≠ o) ∧ ∀ i : Invocation, i.Occurs line → b + i.lparen ≠ o) ∧
      ∀ keywords file, ∀ call ∈ calls keywords file text, ∃ b line i,
        (linesFrom 0 text)[call.location.line - 1]? = some (b, line) ∧
        Invocation.Occurs i line ∧ i.name = call.name ∧
        (b + i.lparen, b + i.rparen) ∈ pairs text ∧
        ¬SpansLines text (b + i.lparen) (b + i.rparen) := by
  refine ⟨map_snd_linesFrom 0 text, fun b line hline ↦ ⟨?_, h.pairs_eq hline, ?_⟩, ?_⟩
  · obtain ⟨before, after, htext, hb, -⟩ := exists_split_of_mem_linesFrom hline
    exact ⟨before, after, htext, by rw [hb, Nat.zero_add]⟩
  · intro o c hpair hspans
    exact ⟨fun p hp ↦ h.ne_of_spansLines hline hpair hspans hp,
      fun i hi ↦ h.ne_of_spansLines hline hpair hspans hi.mem_pairs⟩
  · intro keywords file call hcall
    obtain ⟨b, line, i, hget, hi, hname⟩ := exists_invocation_of_mem_calls hcall
    have hpair := h.of_mem_pairs (List.mem_of_getElem? hget) hi.mem_pairs
    exact ⟨b, line, i, hget, hi, hname, hpair⟩

/-- A list opened on the second line, before a literal that ends with its line although a backslash
stands before the carriage return, and closed on the third line, behind a list of that line's own.
-/
def listAcrossLines : List Char :=
  ['f', '('] ++ '\n' :: (['g', '(', '\'', '\\', '\r'] ++ '\n' :: ['h', '(', ')', ')'])

theorem lines_agree_across_list :
    LiteralsEndWithLines listAcrossLines ∧
      (9, ['h', '(', ')', ')']) ∈ linesFrom 0 listAcrossLines ∧
      pairs listAcrossLines = [(4, 12), (10, 11)] ∧
      pairs ['h', '(', ')', ')'] = ((pairs listAcrossLines).filter fun p ↦
        decide (9 ≤ p.1 ∧ p.2 < 9 + 4)).map fun p ↦ (p.1 - 9, p.2 - 9) := by
  have h : LiteralsEndWithLines listAcrossLines := by decide
  have hline : (9, ['h', '(', ')', ')']) ∈ linesFrom 0 listAcrossLines := by
    rw [listAcrossLines, linesFrom_append_feed _ _ _ (by decide),
      linesFrom_append_feed _ _ _ (by decide), linesFrom_of_not_mem _ _ (by decide) (by decide)]
    exact List.mem_cons_of_mem _ (List.mem_cons_of_mem _ (List.mem_singleton_self _))
  exact ⟨h, hline, by decide, ((lines_agree_with_text listAcrossLines h).2.1 9 _ hline).2.1⟩

end CallSites
