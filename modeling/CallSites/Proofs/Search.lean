import Mathlib.Data.List.Find
import CallSites.Proofs.Invocation

/-!
# The first invocation of a window

A search for the next invocation is given an offset to start from and a limit to stay before. The
index answers it from its list of all invocations. It could also be answered by reading the text cut
at the limit, from head to head: a head whose list does not close before the limit is passed over,
and the reading goes on behind its parenthesis. The two agree, because a cut neither makes a head
nor loses one that ends before it, and because whatever is passed over has no other head in it.

An offset that falls into a name finds nothing of that name: heads are whole names, whatever the
search starts from.
-/

namespace CallSites

open Text

/-! ## Heads of a text that is cut -/

namespace Head

variable {h : Head} {before : List Char}

theorem OccursFrom.lt_lparen {text : List Char} (ho : h.OccursFrom 0 text) :
    h.start < h.lparen ∧ h.lparen < byteLength text := by
  obtain ⟨front, rest, rfl, -, blanks, behind, rfl, hne, -, -, -, hstart, hlparen⟩ := ho
  have hpos : byteLength h.name ≠ 0 := fun hzero ↦ hne (byteLength_eq_zero.mp hzero)
  simp only [byteLength_append, byteLength_cons]
  have hparen : '('.utf8Size = 1 := rfl
  omega

/-- **A cut makes no head and loses none that ends before it.** -/
theorem occursFrom_append_left_iff (after : List Char) :
    h.OccursFrom 0 before ↔ h.OccursFrom 0 (before ++ after) ∧ h.lparen < byteLength before := by
  constructor
  · intro ho
    refine ⟨?_, ho.lt_lparen.2⟩
    obtain ⟨front, rest, rfl, hfront, blanks, behind, rfl, hhead⟩ := ho
    refine ⟨front, h.name ++ (blanks ++ '(' :: behind) ++ after, ?_, hfront, blanks,
      behind ++ after, ?_, hhead⟩
    · rw [List.append_assoc]
    · simp only [List.append_assoc, List.cons_append]
  · rintro ⟨⟨front, rest, hsplit, hfront, blanks, behind, rfl, hhead⟩, hlt⟩
    have hlparen := hhead.2.2.2.2.2
    -- the parenthesis stands before the cut, and all of the head before the parenthesis
    have hsplit' : (front ++ (h.name ++ (blanks ++ ['(']))) ++ behind = before ++ after := by
      rw [hsplit]
      simp only [List.append_assoc, List.cons_append, List.nil_append]
    have hlen : byteLength (front ++ (h.name ++ (blanks ++ ['(']))) ≤ byteLength before := by
      simp only [byteLength_append, byteLength_cons, byteLength_nil]
      have hparen : '('.utf8Size = 1 := rfl
      omega
    obtain ⟨between, hbefore, -⟩ := exists_append_of_byteLength_le hsplit' hlen
    refine ⟨front, h.name ++ (blanks ++ '(' :: between), ?_, hfront, blanks, between, rfl, hhead⟩
    rw [hbefore]
    simp only [List.append_assoc, List.cons_append, List.nil_append]

end Head

theorem lt_lparen_of_mem_heads {text : List Char} {h : Head} (hmem : h ∈ heads text) :
    h.start < h.lparen ∧ h.lparen < byteLength text :=
  (mem_headsFrom.mp hmem).lt_lparen

/-! ## Reading from head to head -/

/-- The first invocation from `pos` on that closes before `limit`, read off the heads of a window:
the next head is taken if it closes in time, and otherwise the reading goes on behind it. -/
def scanWindow (window : List Char) (partner : Std.HashMap Nat Nat) (limit pos : Nat) :
    Option Invocation :=
  match _hfind : (heads window).find? fun h ↦ decide (pos ≤ h.start) with
  | none => none
  | some h =>
    match (h.complete? partner).filter fun i ↦ decide (i.stop ≤ limit) with
    | some i => some i
    | none => scanWindow window partner limit (h.lparen + 1)
termination_by byteLength window - pos
decreasing_by
  have hlt := lt_lparen_of_mem_heads (List.mem_of_find?_eq_some _hfind)
  have hle := List.find?_some _hfind
  rw [decide_eq_true_eq] at hle
  omega

theorem Index.WellFormed.next_eq_some {ix : Index} (hix : ix.WellFormed) {origin limit : Nat}
    {i : Invocation} (hi : i ∈ ix.invocations) (hstart : origin ≤ i.start) (hstop : i.stop ≤ limit)
    (hfirst : ∀ x ∈ ix.invocations, origin ≤ x.start → x.stop ≤ limit → i.start ≤ x.start) :
    ix.next origin limit = some i := by
  rcases hnext : ix.next origin limit with _ | j
  · exact absurd ⟨hstart, hstop⟩ (not_mem_window_of_next hnext i hi)
  · obtain ⟨hj, hleast⟩ := hix.of_next hnext
    have hle := hfirst j hj (Index.le_start_of_next hnext) (Index.stop_le_of_next hnext)
    have hlt := j.start_lt
    rcases hleast i hi hstart hstop with rfl | ⟨hpast, -⟩
    · rfl
    · omega

/-- The head that is found comes first, and the others begin behind its parenthesis. -/
theorem eq_or_lt_of_find?_heads {window : List Char} {pos : Nat} {h h' : Head}
    (hfind : (heads window).find? (fun h ↦ decide (pos ≤ h.start)) = some h)
    (hmem : h' ∈ heads window) (hpos : pos ≤ h'.start) : h' = h ∨ h.lparen < h'.start := by
  obtain ⟨-, passed, rest, hsplit, hpassed⟩ := List.find?_eq_some_iff_append.mp hfind
  rw [hsplit, List.mem_append, List.mem_cons] at hmem
  rcases hmem with hmem | rfl | hmem
  · have hfail := hpassed h' hmem
    simp only [Bool.not_eq_true', decide_eq_false_iff_not] at hfail
    exact absurd hpos hfail
  · exact .inl rfl
  · have hsorted := pairwise_headsFrom 0 window
    rw [← heads, hsplit, List.pairwise_append, List.pairwise_cons] at hsorted
    exact .inr (hsorted.2.1.1 h' hmem)

section Window

variable {text before after : List Char} {pos : Nat}

/-- An invocation that ends before the cut has its head before the cut. -/
theorem exists_head_of_mem_invocations (htext : text = before ++ after) {x : Invocation}
    (hx : x ∈ (Index.ofText text).invocations) (hstop : x.stop ≤ byteLength before) :
    ∃ h ∈ heads before, h.complete? (partners text) = some x := by
  rw [Index.ofText, List.mem_filterMap] at hx
  obtain ⟨h, hh, hcomplete⟩ := hx
  have hlparen := (Head.complete?_eq_some.mp hcomplete).2.2.1
  have hoff := x.offsets_lt
  refine ⟨h, mem_headsFrom.mpr ?_, hcomplete⟩
  rw [Head.occursFrom_append_left_iff after, ← htext]
  exact ⟨mem_headsFrom.mp hh, by omega⟩

theorem mem_invocations_of_complete? (htext : text = before ++ after) {h : Head} {i : Invocation}
    (hh : h ∈ heads before) (hcomplete : h.complete? (partners text) = some i) :
    i ∈ (Index.ofText text).invocations := by
  have ho := (Head.occursFrom_append_left_iff after).mp (mem_headsFrom.mp hh)
  rw [← htext] at ho
  rw [Index.ofText, List.mem_filterMap]
  exact ⟨h, mem_headsFrom.mpr ho.1, hcomplete⟩

/-- An invocation of the window is that of the head found first, or starts behind that head. -/
theorem complete?_or_lt_of_find?_heads (htext : text = before ++ after) {h : Head} {x : Invocation}
    (hfind : (heads before).find? (fun h ↦ decide (pos ≤ h.start)) = some h)
    (hx : x ∈ (Index.ofText text).invocations) (hpos : pos ≤ x.start)
    (hstop : x.stop ≤ byteLength before) :
    h.complete? (partners text) = some x ∨ h.lparen < x.start := by
  obtain ⟨h', hh', hcomplete⟩ := exists_head_of_mem_invocations htext hx hstop
  have hstart := (Head.complete?_eq_some.mp hcomplete).2.1
  rw [hstart] at hpos ⊢
  rcases eq_or_lt_of_find?_heads hfind hh' hpos with rfl | hlt
  · exact .inl hcomplete
  · exact .inr hlt

/-- **Reading the cut text from head to head finds what the index finds.** -/
theorem scanWindow_eq_next (htext : text = before ++ after) (pos : Nat) :
    scanWindow before (partners text) (byteLength before) pos =
      (Index.ofText text).next pos (byteLength before) := by
  have hix := Index.wellFormed_ofText text
  fun_induction scanWindow before (partners text) (byteLength before) pos with
  | case1 pos hnone =>
    symm
    rw [Index.next, List.find?_eq_none]
    intro x hx hwindow
    rw [Bool.and_eq_true, decide_eq_true_eq, decide_eq_true_eq] at hwindow
    obtain ⟨h, hh, hcomplete⟩ := exists_head_of_mem_invocations htext hx hwindow.2
    have hfail := List.find?_eq_none.mp hnone h hh
    rw [decide_eq_true_eq, ← (Head.complete?_eq_some.mp hcomplete).2.1] at hfail
    exact hfail hwindow.1
  | case2 pos h hfind i hsome =>
    obtain ⟨hcomplete, hstop⟩ := Option.filter_eq_some_iff.mp hsome
    have hh := List.mem_of_find?_eq_some hfind
    have hpos := List.find?_some hfind
    rw [decide_eq_true_eq] at hpos hstop
    have hstart := (Head.complete?_eq_some.mp hcomplete).2.1
    symm
    refine hix.next_eq_some (mem_invocations_of_complete? htext hh hcomplete) (hstart ▸ hpos)
      hstop ?_
    intro x hx hxstart hxstop
    rcases complete?_or_lt_of_find?_heads htext hfind hx hxstart hxstop with hsame | hpast
    · rw [Option.some_inj.mp (hcomplete.symm.trans hsame)]
    · have hlt := lt_lparen_of_mem_heads hh
      omega
  | case3 pos h hfind hnone ih =>
    have hh := List.mem_of_find?_eq_some hfind
    have hpos := List.find?_some hfind
    rw [decide_eq_true_eq] at hpos
    have hlt := lt_lparen_of_mem_heads hh
    rw [ih, Index.next, Index.next]
    -- nothing starts between the offset and the end of the head that was passed over
    apply List.find?_congr
    intro x hx
    rw [← Bool.decide_and, ← Bool.decide_and, decide_eq_decide]
    refine and_congr_left fun hxstop ↦ ⟨fun hxstart ↦ by omega, fun hxstart ↦ ?_⟩
    rcases complete?_or_lt_of_find?_heads htext hfind hx hxstart hxstop with hsame | hpast
    · rw [hsame, Option.filter_some, if_pos (by simpa using hxstop)] at hnone
      exact absurd hnone nofun
    · omega

end Window

/-! ## What is found -/

namespace Invocation

variable {i : Invocation} {text : List Char}

/-- The name of an invocation is a whole run of word characters at its start. -/
theorem Occurs.exists_name (hi : i.Occurs text) :
    ∃ before behind, text = before ++ (i.name.toList ++ behind) ∧ byteLength before = i.start ∧
      i.name.toList ≠ [] ∧ (∀ c ∈ i.name.toList, isWord c) ∧
      (∀ c ∈ before.getLast?, isWord c = false) ∧ ∀ c ∈ behind.head?, isWord c = false := by
  obtain ⟨h, ⟨front, rest, htext, hfront, hbegins⟩, hname, hstart, -⟩ := hi
  obtain ⟨blanks, after, hrest, hne, hword, hbehind, -, hs, -⟩ := hbegins
  have hlist : i.name.toList = h.name := by rw [hname, String.toList_ofList]
  rw [hlist]
  refine ⟨front, blanks ++ '(' :: after, by rw [htext, hrest], by omega, hne, hword, hfront, ?_⟩
  rcases blanks with _ | ⟨d, blanks⟩ <;> exact hbehind

/-- The list of an invocation stands between a `(` and a `)` at its offsets. -/
theorem Occurs.exists_list (hi : i.Occurs text) :
    ∃ before args after, text = before ++ '(' :: (args ++ ')' :: after) ∧
      byteLength before = i.lparen ∧ byteLength before + 1 + byteLength args = i.rparen ∧
      (Index.ofText text).arguments i = args := by
  have hoff := i.offsets_lt
  obtain ⟨upto, after, hclose, hrparen⟩ := exists_split_of_mem_pairs hi.mem_pairs
  obtain ⟨h, ⟨front, rest, htext, -, blanks, behind, rfl, -, -, -, -, -, hl⟩, -, -, hlparen, -⟩ :=
    hi
  -- the closing parenthesis is behind the opening one
  have hopen : (front ++ (h.name ++ blanks) ++ ['(']) ++ behind = upto ++ ')' :: after := by
    rw [← hclose, htext]
    simp only [List.append_assoc, List.cons_append, List.nil_append]
  have hlen : byteLength (front ++ (h.name ++ blanks)) = i.lparen := by
    simp only [byteLength_append]
    omega
  have hlen' : byteLength (front ++ (h.name ++ blanks) ++ ['(']) = i.lparen + 1 := by
    rw [byteLength_append, hlen]
    rfl
  obtain ⟨args, hupto, hbehind⟩ := exists_append_of_byteLength_le hopen (by omega)
  have hargs : i.lparen + 1 + byteLength args = i.rparen := by
    rw [← hrparen, hupto, byteLength_append, hlen']
  have htext' : text = (front ++ (h.name ++ blanks) ++ ['(']) ++ (args ++ ')' :: after) := by
    rw [hclose, hupto, List.append_assoc]
  refine ⟨front ++ (h.name ++ blanks), args, after, ?_, hlen, by rw [hlen, hargs], ?_⟩
  · rw [htext', List.append_assoc, List.singleton_append]
  · have hcut : i.rparen - (i.lparen + 1) = byteLength args := by omega
    change slice text (i.lparen + 1) i.rparen = args
    rw [slice, hcut, ← hlen', htext', dropBytes_byteLength, takeBytes_byteLength]

/-- `i` is the first invocation of `text` that starts at or after `origin` and closes before
`limit`. -/
structure FirstIn (i : Invocation) (text : List Char) (origin limit : Nat) : Prop where
  occurs : i.Occurs text
  origin_le : origin ≤ i.start
  closes : (partners text)[i.lparen]? = some i.rparen ∧ i.stop = i.rparen + 1 ∧ i.stop ≤ limit
  least : ∀ j : Invocation, j.Occurs text → origin ≤ j.start → j.rparen < limit →
    j = i ∨ i.start < j.start
  /-- The name is a whole run of word characters, with none on either side. -/
  name_whole : ∃ before behind, text = before ++ (i.name.toList ++ behind) ∧
    byteLength before = i.start ∧ i.name.toList ≠ [] ∧ (∀ c ∈ i.name.toList, isWord c) ∧
    (∀ c ∈ before.getLast?, isWord c = false) ∧ ∀ c ∈ behind.head?, isWord c = false
  /-- The arguments are what stands between the two parentheses. -/
  arguments_eq : ∃ before args after, text = before ++ '(' :: (args ++ ')' :: after) ∧
    byteLength before = i.lparen ∧ byteLength before + 1 + byteLength args = i.rparen ∧
    (Index.ofText text).arguments i = args

end Invocation

theorem firstIn_of_next {text : List Char} {origin limit : Nat} {i : Invocation}
    (h : (Index.ofText text).next origin limit = some i) : i.FirstIn text origin limit := by
  obtain ⟨hmem, hfirst⟩ := (Index.wellFormed_ofText text).of_next h
  have hi := mem_invocations.mp hmem
  constructor
  · exact hi
  · exact Index.le_start_of_next h
  · exact ⟨getElem?_partners.mpr hi.mem_pairs, i.rparen_add_one.symm, Index.stop_le_of_next h⟩
  · intro j hj hstart hlimit
    have hstop := j.rparen_add_one
    have hlt := i.start_lt
    rcases hfirst j (mem_invocations.mpr hj) hstart (by omega) with rfl | ⟨hpast, -⟩
    · exact .inl rfl
    · exact .inr (by omega)
  · exact hi.exists_name
  · exact hi.exists_list

theorem next_eq_none_iff {text : List Char} {origin limit : Nat} :
    (Index.ofText text).next origin limit = none ↔
      ¬∃ i : Invocation, i.Occurs text ∧ origin ≤ i.start ∧ i.rparen < limit := by
  rw [Index.next, List.find?_eq_none]
  simp only [Bool.and_eq_true, decide_eq_true_eq, mem_invocations, ← Invocation.rparen_add_one,
    Nat.succ_le_iff, not_exists, not_and]

/-- **A search finds the first invocation of its window.** Within the text and at a boundary, the
search answers: with nothing exactly if no invocation starts at or after `origin` and closes before
`limit`, and otherwise with the first of them. It is the answer that reading the text cut at `limit`
gives, from head to head. -/
theorem search_eq_first (text : List Char) (origin limit : Nat) (hlimit : isBoundary text limit) :
    ∃ found, (Index.ofText text).search origin limit = .ok found ∧
      found = scanWindow (takeBytes limit text) (partners text) limit origin ∧
      (found = none ↔ ¬∃ i : Invocation, i.Occurs text ∧ origin ≤ i.start ∧ i.rparen < limit) ∧
      ∀ i, found = some i → i.FirstIn text origin limit := by
  obtain ⟨before, after, htext, hlen⟩ := exists_split_of_isBoundary hlimit
  have hsize : ¬byteLength text < limit := by
    rw [htext, byteLength_append]
    omega
  refine ⟨(Index.ofText text).next origin limit, ?_, ?_, next_eq_none_iff, ?_⟩
  · rw [Index.search, Index.ofText]
    dsimp only
    rw [if_neg hsize, hlimit]
    rfl
  · have htake : takeBytes limit text = before := by rw [← hlen, htext, takeBytes_byteLength]
    rw [htake, ← hlen, scanWindow_eq_next htext]
  · intro i hi
    exact firstIn_of_next hi

/-- A search that starts inside a name whose list closes in time, and finds the next name. -/
def insideName : List Char :=
  ['a', 'b', '(', 'c', ')', 'd', '(', ')']

theorem search_eq_first_insideName :
    isBoundary insideName 8 ∧ ∃ i, (Index.ofText insideName).search 1 8 = .ok (some i) ∧
      i.FirstIn insideName 1 8 := by
  have hboundary : isBoundary insideName 8 := by decide
  obtain ⟨found, hsearch, -, hnone, hfirst⟩ := search_eq_first insideName 1 8 hboundary
  -- the list of `d` closes before the limit, so something is found
  have hoccurs : (⟨"d", 5, 6, 8, by decide, by decide⟩ : Invocation).Occurs insideName := by
    refine ⟨⟨['d'], 5, 6⟩, ?_, rfl, rfl, rfl, getElem?_partners.mpr (by decide)⟩
    refine ⟨['a', 'b', '(', 'c', ')'], ['d', '(', ')'], rfl, ?_, [], [')'], rfl, ?_, ?_, ?_, ?_,
      rfl, rfl⟩
    · rintro c ⟨⟩
      decide
    · exact List.cons_ne_nil _ _
    · intro c hc
      rw [List.mem_singleton.mp hc]
      decide
    · rintro c ⟨⟩
      decide
    · intro c hc
      exact absurd hc List.not_mem_nil
  rcases found with _ | i
  · exact absurd ⟨_, hoccurs, by decide, by decide⟩ (hnone.mp rfl)
  · exact ⟨hboundary, i, hsearch, hfirst i rfl⟩

end CallSites
