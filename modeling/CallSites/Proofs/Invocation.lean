import Mathlib.Data.List.TakeWhile
import Mathlib.Tactic.SplitIfs
import CallSites.Invocation
import CallSites.Proofs.Pairing

/-!
# What the invocations of a text are

The list of invocations is built by scanning; here it is compared with a description that does not
scan. A head is a *whole* run of word characters, with no word character on either side, then
blanks, then a parenthesis; an invocation is a head whose parenthesis has a partner. The scan finds
exactly these, each once, by increasing start.

Heads do not overlap, and neither a name nor the blanks behind it hold a parenthesis. With the
nesting of the pairs this makes whole invocations, names included, nested or apart, and that is all
the searches above this layer need to know: `Index.WellFormed`.
-/

namespace CallSites

open Text

/-! ## Heads -/

/-- `cs`, which stands at offset `offset`, begins with the head `h`: a run of word characters that
goes no further, blanks, and a parenthesis. -/
def Head.Begins (h : Head) (offset : Nat) (cs : List Char) : Prop :=
  ∃ blanks after, cs = h.name ++ (blanks ++ '(' :: after) ∧
    h.name ≠ [] ∧ (∀ c ∈ h.name, isWord c) ∧ (∀ c ∈ (blanks ++ ['(']).head?, isWord c = false) ∧
    (∀ c ∈ blanks, isBlank c) ∧
    h.start = offset ∧ h.lparen = offset + byteLength h.name + byteLength blanks

/-- `h` is a head of `cs`, which stands at offset `offset` and does not continue a name. -/
def Head.OccursFrom (h : Head) (offset : Nat) (cs : List Char) : Prop :=
  ∃ before rest, cs = before ++ rest ∧ (∀ c ∈ before.getLast?, isWord c = false) ∧
    h.Begins (offset + byteLength before) rest

namespace Head

variable {h : Head} {offset : Nat} {c : Char} {cs : List Char}

theorem not_begins_nil : ¬h.Begins offset [] := by
  rintro ⟨blanks, after, hcs, hne, -⟩
  exact hne (List.append_eq_nil_iff.mp hcs.symm).1

theorem Begins.isWord (hb : h.Begins offset (c :: cs)) : isWord c := by
  obtain ⟨blanks, after, hcs, hne, hword, -⟩ := hb
  obtain ⟨d, ds, hname⟩ := List.exists_cons_of_ne_nil hne
  rw [hname, List.cons_append, List.cons.injEq] at hcs
  exact hcs.1 ▸ hword d (hname ▸ List.mem_cons_self)

theorem not_occursFrom_nil : ¬h.OccursFrom offset [] := by
  rintro ⟨before, rest, hcs, -, hb⟩
  rw [(List.append_eq_nil_iff.mp hcs.symm).2] at hb
  exact not_begins_nil hb

theorem OccursFrom.le_start (ho : h.OccursFrom offset cs) : offset ≤ h.start := by
  obtain ⟨before, rest, -, -, blanks, after, -, -, -, -, -, hstart, -⟩ := ho
  omega

theorem OccursFrom.start_le_lparen (ho : h.OccursFrom offset cs) : h.start ≤ h.lparen := by
  obtain ⟨before, rest, -, -, blanks, after, -, -, -, -, -, hstart, hlparen⟩ := ho
  omega

theorem OccursFrom.lparen_lt (ho : h.OccursFrom offset cs) :
    h.lparen < offset + byteLength cs := by
  obtain ⟨before, rest, rfl, -, blanks, after, rfl, -, -, -, -, -, hlparen⟩ := ho
  have hparen : '('.utf8Size = 1 := rfl
  rw [byteLength_append, byteLength_append, byteLength_append, byteLength_cons]
  omega

/-- A character outside names is passed over. -/
theorem occursFrom_cons_iff (hc : Text.isWord c = false) :
    h.OccursFrom offset (c :: cs) ↔ h.OccursFrom (offset + c.utf8Size) cs := by
  constructor
  · rintro ⟨before, rest, hcs, hlast, hb⟩
    cases before with
    | nil =>
      rw [List.nil_append] at hcs
      rw [← hcs] at hb
      exact absurd hb.isWord (by rw [hc]; exact Bool.false_ne_true)
    | cons d before =>
      obtain ⟨rfl, htail⟩ := List.cons.inj hcs
      refine ⟨before, rest, htail, fun d hd ↦ hlast d ?_, ?_⟩
      · rw [List.getLast?_cons]
        exact Option.mem_def.mpr (by rw [Option.mem_def.mp hd]; rfl)
      · rwa [byteLength_cons, ← Nat.add_assoc] at hb
  · rintro ⟨before, rest, rfl, hlast, hb⟩
    refine ⟨c :: before, rest, rfl, fun d hd ↦ ?_, ?_⟩
    · rw [List.getLast?_cons, Option.mem_some_iff] at hd
      cases hlast' : before.getLast? with
      | none =>
        rw [hlast', Option.getD_none] at hd
        rw [← hd, hc]
      | some e =>
        rw [hlast', Option.getD_some] at hd
        exact hd ▸ hlast e hlast'
    · rwa [byteLength_cons, ← Nat.add_assoc]

theorem occursFrom_append_iff {ds : List Char} (hcs : ∀ c ∈ cs, Text.isWord c = false) :
    h.OccursFrom offset (cs ++ ds) ↔ h.OccursFrom (offset + byteLength cs) ds := by
  induction cs generalizing offset with
  | nil => rfl
  | cons c cs ih =>
    rw [List.cons_append, occursFrom_cons_iff (hcs c List.mem_cons_self),
      ih fun d hd ↦ hcs d (List.mem_cons_of_mem c hd), byteLength_cons, Nat.add_assoc]

/-- Behind a whole name, a head is that name's or comes later. -/
theorem occursFrom_word_iff {w behind : List Char} (hw : ∀ c ∈ w, Text.isWord c)
    (hbehind : ∀ c ∈ behind.head?, Text.isWord c = false) :
    h.OccursFrom offset (w ++ behind) ↔
      h.Begins offset (w ++ behind) ∨ h.OccursFrom (offset + byteLength w) behind := by
  constructor
  · rintro ⟨before, rest, hcs, hlast, hb⟩
    rcases List.append_eq_append_iff.mp hcs with ⟨between, hbefore, hrest⟩ | ⟨between, hw', hrest⟩
    · refine .inr ⟨between, rest, hrest, fun c hc ↦ hlast c ?_, ?_⟩
      · rw [hbefore, List.getLast?_append, Option.mem_def.mp hc]
        rfl
      · rwa [hbefore, byteLength_append, ← Nat.add_assoc] at hb
    · -- a cut inside the name would have a word character before it
      cases hbefore : before.getLast? with
      | none =>
        rw [List.getLast?_eq_none_iff] at hbefore
        subst hbefore
        rw [List.nil_append] at hcs
        rw [← hcs] at hb
        exact .inl hb
      | some c =>
        have hmem : c ∈ w := hw' ▸ List.mem_append_left _ (List.mem_of_getLast? hbefore)
        exact absurd (hw c hmem) (by rw [hlast c hbefore]; exact Bool.false_ne_true)
  · rintro (hb | ⟨before, rest, rfl, hlast, hb⟩)
    · exact ⟨[], w ++ behind, rfl, nofun, hb⟩
    · refine ⟨w ++ before, rest, (List.append_assoc w before rest).symm, fun c hc ↦ ?_, ?_⟩
      · cases before with
        | nil =>
          -- nothing begins right behind the name, for no word character stands there
          cases rest with
          | nil => exact absurd hb not_begins_nil
          | cons d rest =>
            exact absurd hb.isWord (by rw [hbehind d rfl]; exact Bool.false_ne_true)
        | cons d before =>
          rw [List.getLast?_append, List.getLast?_cons, Option.some_or, ← List.getLast?_cons] at hc
          exact hlast c hc
      · rwa [byteLength_append, ← Nat.add_assoc]

end Head

/-- A run that stops where its property does is what `takeWhile` takes and `dropWhile` drops. -/
theorem takeWhile_dropWhile_append {p : Char → Bool} {run behind : List Char}
    (hrun : ∀ c ∈ run, p c) (hbehind : ∀ c ∈ behind.head?, p c = false) :
    (run ++ behind).takeWhile p = run ∧ (run ++ behind).dropWhile p = behind := by
  rw [List.takeWhile_append_of_pos hrun, List.dropWhile_append_of_pos hrun]
  cases behind with
  | nil => exact ⟨List.append_nil run, rfl⟩
  | cons c behind =>
    have hc : ¬p c = true := by rw [hbehind c rfl]; exact Bool.false_ne_true
    rw [List.takeWhile_cons_of_neg hc, List.dropWhile_cons_of_neg hc, List.append_nil]
    exact ⟨rfl, rfl⟩

/-- A run ends at the latest at a character outside its class. -/
theorem takeWhile_dropWhile_append_stop {p : Char → Bool} {rest : List Char}
    (hrest : ∀ c ∈ rest.head?, p c = false) (cs : List Char) :
    (cs ++ rest).takeWhile p = cs.takeWhile p ∧
      (cs ++ rest).dropWhile p = cs.dropWhile p ++ rest := by
  induction cs with
  | nil => exact takeWhile_dropWhile_append (fun _ h ↦ absurd h List.not_mem_nil) hrest
  | cons c cs ih =>
    by_cases hc : p c
    · simp [hc, ih]
    · simp [hc]

theorem isWord_head?_dropWhile (cs : List Char) :
    ∀ c ∈ (cs.dropWhile isWord).head?, isWord c = false := by
  intro c hc
  have hdrop := List.head?_dropWhile_not isWord cs
  rw [Option.mem_def.mp hc] at hdrop
  simpa using hdrop

/-- Which head a whole name begins, if any. -/
theorem Head.begins_word_iff {h : Head} {offset : Nat} {w behind : List Char} (hne : w ≠ [])
    (hw : ∀ c ∈ w, Text.isWord c) (hbehind : ∀ c ∈ behind.head?, Text.isWord c = false) :
    h.Begins offset (w ++ behind) ↔
      (∃ after, skipBlanks behind = '(' :: after) ∧
        h = ⟨w, offset, offset + byteLength w + byteLength (behind.takeWhile isBlank)⟩ := by
  constructor
  · rintro ⟨blanks, after, hcs, -, hname, hstop, hblanks, hstart, hlparen⟩
    have hstop' : ∀ c ∈ (blanks ++ '(' :: after).head?, Text.isWord c = false := by
      cases blanks <;> exact hstop
    -- both names are the whole run at the front, so they agree, and so does what is behind them
    have hrun := takeWhile_dropWhile_append hw hbehind
    rw [hcs] at hrun
    have hrun' := takeWhile_dropWhile_append hname hstop'
    have hw' : h.name = w := hrun'.1.symm.trans hrun.1
    have hbehind' : blanks ++ '(' :: after = behind := hrun'.2.symm.trans hrun.2
    have hopen : ∀ c ∈ ('(' :: after).head?, isBlank c = false := by
      rintro c ⟨⟩
      decide
    have hblank := takeWhile_dropWhile_append hblanks hopen
    rw [hbehind'] at hblank
    refine ⟨⟨after, hblank.2⟩, ?_⟩
    calc h = ⟨h.name, h.start, h.lparen⟩ := rfl
      _ = _ := by rw [hlparen, hw', hstart, hblank.1]
  · rintro ⟨⟨after, hafter⟩, rfl⟩
    have hsplit : behind.takeWhile isBlank ++ '(' :: after = behind := by
      rw [← hafter, skipBlanks, List.takeWhile_append_dropWhile]
    refine ⟨behind.takeWhile isBlank, after, by rw [hsplit], hne, hw, ?_,
      fun c hc ↦ List.mem_takeWhile_imp hc, rfl, rfl⟩
    rw [← hsplit] at hbehind
    cases hblank : behind.takeWhile isBlank with
    | nil =>
      rintro c ⟨⟩
      decide
    | cons d blanks =>
      rw [hblank] at hbehind
      exact hbehind

/-- At a word character the scan looks at one whole name and goes on behind it. -/
theorem Head.occursFrom_name_iff {h : Head} {offset : Nat} {c : Char} {cs : List Char}
    (hc : Text.isWord c) :
    h.OccursFrom offset (c :: cs) ↔
      ((∃ after, skipBlanks (cs.dropWhile Text.isWord) = '(' :: after) ∧
        h = ⟨c :: cs.takeWhile Text.isWord, offset,
          offset + byteLength (c :: cs.takeWhile Text.isWord) +
            byteLength ((cs.dropWhile Text.isWord).takeWhile isBlank)⟩) ∨
      h.OccursFrom (offset + byteLength (c :: cs.takeWhile Text.isWord))
        (cs.dropWhile Text.isWord) := by
  have hsplit : c :: cs = (c :: cs.takeWhile Text.isWord) ++ cs.dropWhile Text.isWord := by
    rw [List.cons_append, List.takeWhile_append_dropWhile]
  have hname : ∀ d ∈ c :: cs.takeWhile Text.isWord, Text.isWord d := by
    intro d hd
    rcases List.mem_cons.mp hd with rfl | hd
    · exact hc
    · exact List.mem_takeWhile_imp hd
  have hbehind := isWord_head?_dropWhile cs
  rw [← Head.begins_word_iff (List.cons_ne_nil _ _) hname hbehind,
    ← Head.occursFrom_word_iff hname hbehind, ← hsplit]

/-- **The scan finds the heads, no more and no fewer.** -/
theorem mem_headsFrom {h : Head} {offset : Nat} {cs : List Char} :
    h ∈ headsFrom offset cs ↔ h.OccursFrom offset cs := by
  fun_induction headsFrom offset cs with
  | case1 =>
    exact ⟨fun hmem ↦ absurd hmem List.not_mem_nil, fun ho ↦ absurd ho Head.not_occursFrom_nil⟩
  | case2 offset c cs hc name behind stop after hafter ih =>
    rw [Head.occursFrom_name_iff hc, List.mem_cons, ih]
    exact or_congr_left ⟨fun heq ↦ ⟨⟨after, hafter⟩, heq⟩, And.right⟩
  | case3 offset c cs hc name behind stop hnone ih =>
    rw [Head.occursFrom_name_iff hc, ih]
    exact ⟨.inr, fun ho ↦ ho.resolve_left fun ⟨⟨after, hafter⟩, _⟩ ↦ hnone after hafter⟩
  | case4 offset c cs hc ih => rw [ih, Head.occursFrom_cons_iff (Bool.not_eq_true _ ▸ hc)]

/-- Each head ends before the next begins, its parenthesis included. -/
theorem pairwise_headsFrom (offset : Nat) (cs : List Char) :
    (headsFrom offset cs).Pairwise fun h h' ↦ h.lparen < h'.start := by
  fun_induction headsFrom offset cs with
  | case1 => exact .nil
  | case2 offset c cs hc name behind stop after hafter ih =>
    refine List.pairwise_cons.mpr ⟨fun h' hh' ↦ ?_, ih⟩
    have hbehind : behind = (behind.takeWhile isBlank ++ ['(']) ++ after := by
      rw [List.append_assoc, List.singleton_append, ← hafter, skipBlanks,
        List.takeWhile_append_dropWhile]
    -- blanks and parenthesis hold no name, so the rest of the scan starts behind them
    have hskip : ∀ d ∈ behind.takeWhile isBlank ++ ['('], isWord d = false := by
      intro d hd
      rcases List.mem_append.mp hd with hd | hd
      · exact isWord_eq_false_of_isBlank (List.mem_takeWhile_imp hd)
      · rw [List.mem_singleton.mp hd]
        decide
    rw [mem_headsFrom, hbehind, Head.occursFrom_append_iff hskip, byteLength_append] at hh'
    have hle := hh'.le_start
    have hparen : byteLength ['('] = 1 := rfl
    simp only
    omega
  | case3 offset c cs hc name behind stop hnone ih => exact ih
  | case4 offset c cs hc ih => exact ih

/-- A text that begins with a word character begins with a whole name. -/
theorem exists_name_append {c : Char} (hc : isWord c) (cs : List Char) :
    ∃ w behind, c :: cs = (c :: w) ++ behind ∧ (∀ d ∈ c :: w, isWord d) ∧
      ∀ d ∈ behind.head?, isWord d = false := by
  refine ⟨cs.takeWhile isWord, cs.dropWhile isWord, ?_, ?_, isWord_head?_dropWhile cs⟩
  · rw [List.cons_append, List.takeWhile_append_dropWhile]
  · intro d hd
    rcases List.mem_cons.mp hd with rfl | hd
    · exact hc
    · exact List.mem_takeWhile_imp hd

theorem headsFrom_cons {c : Char} (hc : isWord c = false) (offset : Nat) (cs : List Char) :
    headsFrom offset (c :: cs) = headsFrom (offset + c.utf8Size) cs := by
  rw [headsFrom, if_neg (by rw [hc]; exact Bool.false_ne_true)]

/-- At a whole name the scan looks for a parenthesis behind blanks, and goes on behind the name. -/
theorem headsFrom_name {w behind : List Char} (hne : w ≠ []) (hw : ∀ c ∈ w, isWord c)
    (hbehind : ∀ c ∈ behind.head?, isWord c = false) (offset : Nat) :
    headsFrom offset (w ++ behind) =
      (if (skipBlanks behind).head? = some '(' then
        [⟨w, offset, offset + byteLength w + byteLength (behind.takeWhile isBlank)⟩] else []) ++
        headsFrom (offset + byteLength w) behind := by
  obtain ⟨c, w, rfl⟩ := List.exists_cons_of_ne_nil hne
  have hc : isWord c := hw c List.mem_cons_self
  obtain ⟨htake, hdrop⟩ := takeWhile_dropWhile_append
    (fun d hd ↦ hw d (List.mem_cons_of_mem c hd)) hbehind
  rw [List.cons_append, headsFrom, if_pos hc, htake, hdrop]
  dsimp only
  by_cases hopen : (skipBlanks behind).head? = some '('
  · obtain ⟨after, hafter⟩ := List.head?_eq_some_iff.mp hopen
    rw [if_pos hopen, hafter]
    rfl
  · rw [if_neg hopen, List.nil_append]
    split
    · rename_i after hafter
      rw [hafter] at hopen
      exact absurd rfl hopen
    · rfl

/-- `rest` begins, if at all, with a character that no head holds. -/
def EndsHeads (rest : List Char) : Prop :=
  ∀ c ∈ rest.head?, isWord c = false ∧ isBlank c = false ∧ c ≠ '('

/-- **A text may be cut before a character that no head holds**, and each part scanned for itself.
-/
theorem headsFrom_append {rest : List Char} (hrest : EndsHeads rest) (offset : Nat)
    (cs : List Char) :
    headsFrom offset (cs ++ rest) =
      headsFrom offset cs ++ headsFrom (offset + byteLength cs) rest := by
  match cs with
  | [] => simp [headsFrom]
  | c :: cs =>
    by_cases hc : isWord c
    · obtain ⟨w, behind, hsplit, hw, hbehind⟩ := exists_name_append hc cs
      have hlt : behind.length < (c :: cs).length := by
        rw [hsplit, List.length_append, List.length_cons]
        omega
      have hbehind' : ∀ d ∈ (behind ++ rest).head?, isWord d = false := by
        cases behind with
        | nil => exact fun d hd ↦ (hrest d hd).1
        | cons d behind => exact hbehind
      obtain ⟨htake, hdrop⟩ :=
        takeWhile_dropWhile_append_stop (fun d hd ↦ (hrest d hd).2.1) behind
      -- behind its blanks a name finds the same parenthesis, or none
      have hopen : (skipBlanks (behind ++ rest)).head? = some '(' ↔
          (skipBlanks behind).head? = some '(' := by
        rw [skipBlanks, hdrop, ← skipBlanks]
        cases skipBlanks behind with
        | nil => exact iff_of_false (fun h ↦ (hrest _ h).2.2 rfl) (by decide)
        | cons d ds => exact Iff.rfl
      rw [hsplit, List.append_assoc, headsFrom_name (List.cons_ne_nil c w) hw hbehind,
        headsFrom_name (List.cons_ne_nil c w) hw hbehind', headsFrom_append hrest _ behind, htake,
        byteLength_append, List.append_assoc, ← Nat.add_assoc offset]
      simp only [hopen]
    · rw [Bool.not_eq_true] at hc
      rw [List.cons_append, headsFrom_cons hc, headsFrom_cons hc, headsFrom_append hrest _ cs,
        byteLength_cons, Nat.add_assoc]
termination_by cs.length
decreasing_by
  · exact hlt
  · exact Nat.lt_succ_self _

/-! ## Invocations -/

/-- `i` is an invocation of `text`: a head whose parenthesis has a partner. -/
def Invocation.Occurs (i : Invocation) (text : List Char) : Prop :=
  ∃ h : Head, h.OccursFrom 0 text ∧ i.name = String.ofList h.name ∧ i.start = h.start ∧
    i.lparen = h.lparen ∧ (partners text)[i.lparen]? = some i.rparen

/-- `mark` is the first character behind `i` that is not blank. -/
def Invocation.FollowedBy (i : Invocation) (text : List Char) (mark : Char) : Prop :=
  ∃ before blanks after, text = before ++ (blanks ++ mark :: after) ∧
    byteLength before = i.stop ∧ ∀ c ∈ blanks, isBlank c

namespace Invocation

theorem rparen_add_one (i : Invocation) : i.rparen + 1 = i.stop := by
  have hlt := i.lparen_lt
  rw [rparen]
  omega

/-- The offsets of an invocation, in order. -/
theorem offsets_lt (i : Invocation) :
    i.start < i.lparen ∧ i.lparen < i.rparen ∧ i.rparen + 1 = i.stop := by
  have hlt := i.lparen_lt
  have hstop := i.rparen_add_one
  exact ⟨i.start_lt, by omega, hstop⟩

theorem eq_of_fields {i j : Invocation} (hname : i.name = j.name) (hstart : i.start = j.start)
    (hlparen : i.lparen = j.lparen) (hstop : i.stop = j.stop) : i = j := by
  cases i
  cases j
  dsimp only at hname hstart hlparen hstop
  subst hname hstart hlparen hstop
  rfl

end Invocation

theorem Head.complete?_eq_some {partner : Std.HashMap Nat Nat} {h : Head} {i : Invocation} :
    h.complete? partner = some i ↔
      i.name = String.ofList h.name ∧ i.start = h.start ∧ i.lparen = h.lparen ∧
        partner[i.lparen]? = some i.rparen := by
  have hi := i.offsets_lt
  rw [Head.complete?, Option.bind_eq_bind, Option.bind_eq_some_iff]
  constructor
  · rintro ⟨rparen, hget, hsome⟩
    split_ifs at hsome with hcond
    rw [Option.some_inj] at hsome
    subst hsome
    exact ⟨rfl, rfl, rfl, hget⟩
  · rintro ⟨hname, hstart, hlparen, hget⟩
    rw [hlparen] at hget
    refine ⟨i.rparen, hget, ?_⟩
    rw [dif_pos (by omega), Option.some_inj]
    exact Invocation.eq_of_fields hname.symm hstart.symm hlparen.symm hi.2.2

theorem mem_invocations {text : List Char} {i : Invocation} :
    i ∈ (Index.ofText text).invocations ↔ i.Occurs text := by
  rw [Index.ofText, List.mem_filterMap]
  constructor
  · rintro ⟨h, hmem, hcomplete⟩
    exact ⟨h, mem_headsFrom.mp hmem, Head.complete?_eq_some.mp hcomplete⟩
  · rintro ⟨h, ho, hcomplete⟩
    exact ⟨h, mem_headsFrom.mpr ho, Head.complete?_eq_some.mpr hcomplete⟩

namespace Invocation.Occurs

variable {i j : Invocation} {text : List Char}

theorem mem_pairs (hi : i.Occurs text) : (i.lparen, i.rparen) ∈ pairs text := by
  obtain ⟨h, -, -, -, -, hpartner⟩ := hi
  exact getElem?_partners.mp hpartner

/-- Behind the closing parenthesis the text can be cut. -/
theorem exists_split (hi : i.Occurs text) :
    ∃ before after, text = before ++ after ∧ byteLength before = i.stop := by
  obtain ⟨before, after, htext, hlen⟩ := exists_split_of_mem_pairs hi.mem_pairs
  refine ⟨before ++ [')'], after, by rw [htext, List.append_assoc, List.singleton_append], ?_⟩
  rw [byteLength_append, hlen, ← i.rparen_add_one]
  rfl

theorem stop_le (hi : i.Occurs text) : i.stop ≤ byteLength text := by
  obtain ⟨before, after, rfl, hlen⟩ := hi.exists_split
  rw [byteLength_append]
  omega

/-- Neither a name nor the blanks behind it hold a closing parenthesis. -/
theorem lparen_le_of_start_le (hi : i.Occurs text) {before after : List Char}
    (htext : text = before ++ ')' :: after) (hle : i.start ≤ byteLength before) :
    i.lparen ≤ byteLength before := by
  obtain ⟨h, ⟨front, rest, hfront, -, hbegins⟩, -, hstart, hlparen, -⟩ := hi
  obtain ⟨blanks, behind, hrest, -, hname, -, hblanks, hs, hl⟩ := hbegins
  rw [Nat.zero_add] at hs hl
  refine Nat.le_of_not_lt fun hlt ↦ ?_
  have hsplit : front ++ ((h.name ++ blanks) ++ '(' :: behind) = before ++ ')' :: after := by
    rw [List.append_assoc, ← hrest, ← hfront, htext]
  have hmem := mem_of_byteLength_between hsplit (by omega) (by rw [byteLength_append]; omega)
  rcases List.mem_append.mp hmem with hmem | hmem
  · exact absurd (hname _ hmem) (by decide)
  · exact absurd (hblanks _ hmem) (by decide)

/-- **Of two invocations the later one is behind the earlier or between its parentheses.** -/
theorem apart_or_inside (hi : i.Occurs text) (hj : j.Occurs text) (hlt : i.lparen < j.start) :
    i.stop ≤ j.start ∨ j.stop ≤ i.rparen := by
  obtain ⟨before, after, htext, hlen⟩ := exists_split_of_mem_pairs hi.mem_pairs
  have hioff := i.offsets_lt
  have hjoff := j.offsets_lt
  -- a name cannot straddle the closing parenthesis of `i`
  by_cases hle : j.start ≤ i.rparen
  · have hle' := hj.lparen_le_of_start_le htext (hlen ▸ hle)
    rw [hlen] at hle'
    rcases lt_or_lt_of_mem_pairs hi.mem_pairs hj.mem_pairs (by omega) with hapart | hinside
    · omega
    · exact .inr (by omega)
  · exact .inl (by omega)

/-- The test on the text agrees with its description. -/
theorem followedBy_iff (hi : i.Occurs text) {mark : Char} (hmark : isBlank mark = false) :
    (Index.ofText text).followedBy i mark ↔ i.FollowedBy text mark := by
  obtain ⟨before, after, htext, hlen⟩ := hi.exists_split
  have hdrop : dropBytes i.stop text = after := by
    rw [htext, ← hlen, dropBytes_byteLength]
  rw [Index.followedBy, Index.ofText, hdrop, beq_iff_eq]
  constructor
  · intro hhead
    obtain ⟨behind, hbehind⟩ := List.head?_eq_some_iff.mp hhead
    refine ⟨before, after.takeWhile isBlank, behind, ?_, hlen, fun c hc ↦ List.mem_takeWhile_imp hc⟩
    rw [← hbehind, skipBlanks, List.takeWhile_append_dropWhile, htext]
  · rintro ⟨front, blanks, behind, hfront, hlen', hblanks⟩
    have hafter : after = blanks ++ mark :: behind := by
      rw [← hdrop, hfront, ← hlen', dropBytes_byteLength]
    have hstop : ∀ c ∈ (mark :: behind).head?, isBlank c = false := by
      rintro c ⟨⟩
      exact hmark
    rw [hafter, skipBlanks, (takeWhile_dropWhile_append hblanks hstop).2, List.head?_cons]

end Invocation.Occurs

/-! ## Indices -/

/-- What the searches need of an index: the invocations stand by increasing start, each later one
behind an earlier one or between its parentheses, and all end within the text. -/
structure Index.WellFormed (ix : Index) : Prop where
  nested : ix.invocations.Pairwise fun i j ↦
    i.lparen < j.start ∧ (i.stop ≤ j.start ∨ j.stop ≤ i.rparen)
  stop_le : ∀ i ∈ ix.invocations, i.stop ≤ ix.size

theorem Index.wellFormed_ofText (text : List Char) : (Index.ofText text).WellFormed where
  nested := by
    have hheads : (Index.ofText text).invocations.Pairwise fun i j ↦ i.lparen < j.start := by
      refine List.pairwise_filterMap.mpr ((pairwise_headsFrom 0 text).imp ?_)
      intro h h' hlt i hi j hj
      obtain ⟨-, -, hlparen, -⟩ := Head.complete?_eq_some.mp hi
      obtain ⟨-, hstart, -, -⟩ := Head.complete?_eq_some.mp hj
      rw [hlparen, hstart]
      exact hlt
    refine hheads.imp_of_mem fun hi hj hlt ↦ ⟨hlt, ?_⟩
    exact (mem_invocations.mp hi).apart_or_inside (mem_invocations.mp hj) hlt
  stop_le := fun i hi ↦ (mem_invocations.mp hi).stop_le

namespace Index.WellFormed

variable {ix : Index} {origin limit : Nat} {i : Invocation}

theorem sorted (hix : ix.WellFormed) : ix.invocations.Pairwise fun i j ↦ i.start < j.start :=
  hix.nested.imp fun {i _} h ↦ i.start_lt.trans h.1

theorem not_mem_window_of_next (h : ix.next origin limit = none) :
    ∀ x ∈ ix.invocations, ¬(origin ≤ x.start ∧ x.stop ≤ limit) := by
  intro x hx hwindow
  have hfail := List.find?_eq_none.mp h x hx
  simp only [Bool.and_eq_true, decide_eq_true_eq] at hfail
  exact hfail hwindow

/-- **What is found comes first.** Everything else in the window starts behind its opening
parenthesis, and then is either behind it or between its parentheses. -/
theorem of_next (hix : ix.WellFormed) (h : ix.next origin limit = some i) :
    i ∈ ix.invocations ∧ ∀ x ∈ ix.invocations, origin ≤ x.start → x.stop ≤ limit →
      x = i ∨ (i.lparen < x.start ∧ (i.stop ≤ x.start ∨ x.stop ≤ i.rparen)) := by
  obtain ⟨-, before, after, hsplit, hbefore⟩ := List.find?_eq_some_iff_append.mp h
  refine ⟨List.mem_of_find?_eq_some h, fun x hx hstart hstop ↦ ?_⟩
  rw [hsplit, List.mem_append, List.mem_cons] at hx
  rcases hx with hx | rfl | hx
  · -- whatever the search passed over is outside the window
    have hfail := hbefore x hx
    simp only [Bool.not_eq_true', Bool.and_eq_false_iff, decide_eq_false_iff_not] at hfail
    omega
  · exact .inl rfl
  · have hnested := hix.nested
    rw [hsplit, List.pairwise_append, List.pairwise_cons] at hnested
    exact .inr (hnested.2.1.1 x hx)

end Index.WellFormed

end CallSites
