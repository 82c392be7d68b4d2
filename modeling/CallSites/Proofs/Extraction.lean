import Mathlib.Data.List.Chain
import CallSites.Declared
import CallSites.Proofs.Nesting
import CallSites.Proofs.Search

/-!
# Extraction with every offset checked

Definitions and calls are found by loops that hand offsets on: where the last invocation opened,
closed or ended, the next search starts or must stop. The offsets are counted in bytes, and come
from a pass that goes right through the middle of characters; the texts that are cut at them are
made of characters. Here the loops are run turn by turn, and every offset is checked before it is
used: a search refuses a window that does not end at a boundary of the text, and a cut refuses to be
made anywhere else.

## Why no check fails

Each position is a boundary, and lies between the parentheses of the list that is being searched.
This holds at the start, and every turn keeps it, because there is a boundary on either side of a
parenthesis, whatever stands around it.

## Why there is a last turn

A turn ends the innermost loop or moves it on. What is left to search, with one added for each list
that is open, becomes less in either case. That is so even for a turn that opens a list: the name
and the two parentheses around the list will not be searched again, and that pays for the one added.
So a text is done with in no more turns than it has bytes.
-/

namespace CallSites

open Text

/-! ## Checked offsets -/

theorem le_byteLength_of_isBoundary {text : List Char} {n : Nat} (h : isBoundary text n) :
    n ≤ byteLength text := by
  obtain ⟨before, after, rfl, hlen⟩ := exists_split_of_isBoundary h
  rw [byteLength_append]
  omega

theorem isBoundary_of_split {text before after : List Char} (h : text = before ++ after) :
    isBoundary text (byteLength before) :=
  h ▸ isBoundary_byteLength before after

namespace Index

/-- The text between two offsets, which must be in order, within the text and at its boundaries. -/
def cut (ix : Index) (start stop : Nat) : Except BadLimit (List Char) :=
  if stop < start ∨ ix.size < stop then .error .beyondText
  else if !isBoundary ix.text start || !isBoundary ix.text stop then .error .insideCharacter
  else .ok (slice ix.text start stop)

/-- The next invocation of a window, with its arguments cut out. -/
def nextChecked (ix : Index) (origin limit : Nat) :
    Except BadLimit (Option (Invocation × List Char)) :=
  match ix.search origin limit with
  | .error e => .error e
  | .ok none => .ok none
  | .ok (some i) => (ix.cut (i.lparen + 1) i.rparen).map fun arguments ↦ some (i, arguments)

/-- Whether `mark` is the first character that is not blank in what is cut off behind an invocation.
-/
def followedByChecked (ix : Index) (i : Invocation) (mark : Char) : Except BadLimit Bool :=
  (ix.cut i.stop ix.size).map fun behind ↦ (skipBlanks behind).head? == some mark

end Index

section

variable {text : List Char} {start stop origin limit : Nat} {i : Invocation}

@[simp]
theorem Index.text_ofText (text : List Char) : (Index.ofText text).text = text := rfl

@[simp]
theorem Index.size_ofText (text : List Char) : (Index.ofText text).size = byteLength text := rfl

theorem cut_ofText (hstart : isBoundary text start) (hstop : isBoundary text stop)
    (hle : start ≤ stop) : (Index.ofText text).cut start stop = .ok (slice text start stop) := by
  have hrange : ¬(stop < start ∨ (Index.ofText text).size < stop) := by
    have hsize := le_byteLength_of_isBoundary hstop
    rw [Index.size_ofText]
    omega
  have hinside : ¬(!isBoundary (Index.ofText text).text start ||
      !isBoundary (Index.ofText text).text stop) = true := by
    rw [Index.text_ofText, hstart, hstop]
    decide
  rw [Index.cut, if_neg hrange, if_neg hinside, Index.text_ofText]

theorem search_ofText (origin : Nat) (hlimit : isBoundary text limit) :
    (Index.ofText text).search origin limit = .ok ((Index.ofText text).next origin limit) := by
  have hrange : ¬(Index.ofText text).size < limit := by
    rw [Index.size_ofText]
    exact Nat.not_lt.mpr (le_byteLength_of_isBoundary hlimit)
  have hinside : ¬(!isBoundary (Index.ofText text).text limit) = true := by
    rw [Index.text_ofText, hlimit]
    decide
  rw [Index.search, if_neg hrange, if_neg hinside]

/-- The offsets of an invocation at which the text is cut. -/
structure Invocation.CutsAt (i : Invocation) (text : List Char) : Prop where
  behind_lparen : isBoundary text (i.lparen + 1)
  rparen : isBoundary text i.rparen
  stop : isBoundary text i.stop

/-- Behind the opening parenthesis of a head the text can be cut. -/
theorem Head.OccursFrom.isBoundary_succ {h : Head} (ho : h.OccursFrom 0 text) :
    isBoundary text (h.lparen + 1) := by
  obtain ⟨front, rest, htext, -, blanks, behind, hrest, -, -, -, -, -, hlparen⟩ := ho
  have hsplit : text = (front ++ (h.name ++ (blanks ++ ['(']))) ++ behind := by
    rw [htext, hrest]
    simp only [List.append_assoc, List.cons_append, List.nil_append]
  have hlen : byteLength (front ++ (h.name ++ (blanks ++ ['(']))) = h.lparen + 1 := by
    have hparen : '('.utf8Size = 1 := rfl
    simp only [byteLength_append, byteLength_cons, byteLength_nil]
    omega
  exact hlen ▸ isBoundary_of_split hsplit

/-- **On either side of a parenthesis there is a boundary.** -/
theorem Invocation.Occurs.cutsAt (hi : i.Occurs text) : i.CutsAt text := by
  constructor
  · obtain ⟨h, ho, -, -, hlparen, -⟩ := hi
    rw [hlparen]
    exact ho.isBoundary_succ
  · obtain ⟨before, after, hsplit, hlen⟩ := exists_split_of_mem_pairs hi.mem_pairs
    exact hlen ▸ isBoundary_of_split hsplit
  · obtain ⟨before, after, hsplit, hlen⟩ := hi.exists_split
    exact hlen ▸ isBoundary_of_split hsplit

theorem occurs_of_next (h : (Index.ofText text).next origin limit = some i) : i.Occurs text :=
  mem_invocations.mp (List.mem_of_find?_eq_some h)

/-- The offsets of what is found in a window, in order. -/
theorem Index.offsets_of_next {ix : Index} (h : ix.next origin limit = some i) :
    origin ≤ i.start ∧ i.start < i.lparen ∧ i.lparen < i.rparen ∧ i.rparen + 1 = i.stop ∧
      i.stop ≤ limit := by
  obtain ⟨hstart, hlparen, hrparen⟩ := i.offsets_lt
  exact ⟨le_start_of_next h, hstart, hlparen, hrparen, stop_le_of_next h⟩

/-- With its limit at a boundary a search answers, and what it finds can be cut out. -/
theorem nextChecked_ofText (origin : Nat) (hlimit : isBoundary text limit) :
    (Index.ofText text).nextChecked origin limit =
      .ok (((Index.ofText text).next origin limit).map fun i ↦
        (i, (Index.ofText text).arguments i)) := by
  rw [Index.nextChecked, search_ofText origin hlimit]
  cases hnext : (Index.ofText text).next origin limit with
  | none => rfl
  | some i =>
    have hcuts := (occurs_of_next hnext).cutsAt
    have hoff := i.offsets_lt
    dsimp only
    rw [cut_ofText hcuts.behind_lparen hcuts.rparen (by omega)]
    rfl

/-- What stands behind an invocation of the text can be cut off. -/
theorem followedByChecked_ofText (hi : i.Occurs text) (mark : Char) :
    (Index.ofText text).followedByChecked i mark =
      .ok ((Index.ofText text).followedBy i mark) := by
  have hend : isBoundary text (byteLength text) := isBoundary_of_split (List.append_nil text).symm
  obtain ⟨before, after, htext, hlen⟩ := hi.exists_split
  have hdrop : dropBytes i.stop text = after := by
    rw [htext, ← hlen, dropBytes_byteLength]
  have hslice : slice text i.stop (byteLength text) = after := by
    have hsize : byteLength text - i.stop = byteLength after := by
      rw [htext, byteLength_append]
      omega
    have htake := takeBytes_byteLength after []
    rw [List.append_nil] at htake
    rw [slice, hdrop, hsize, htake]
  rw [Index.followedByChecked, Index.followedBy, Index.size_ofText, Index.text_ofText,
    cut_ofText hi.cutsAt.stop hend hi.stop_le, hslice, hdrop]
  rfl

end

/-! ## Turns -/

/-- The two extractors. -/
inductive Extractor where
  | calls
  | definitions

/-- A list that is being searched: the invocation it belongs to, and where the search goes on. -/
structure OpenList where
  outer : Invocation
  pos : Nat

/-- An extraction under way. -/
structure Extraction where
  /-- Where the search of the whole text goes on. -/
  pos : Nat := 0
  /-- The lists that are being searched, the innermost first. -/
  lists : List OpenList := []
  /-- What has been taken so far, in order. -/
  found : List Invocation := []

namespace Extractor

/-- What must stand behind an invocation that is taken. -/
def mark : Extractor → Char
  | calls => ';'
  | definitions => '\x7b'

/-- The lists that are to be searched for an invocation that is taken: a statement brings all that
is nested in it, a definition only itself. -/
def opened : Extractor → Invocation → List OpenList
  | calls, i => [⟨i, i.lparen + 1⟩]
  | definitions, _ => []

/-- What an extractor takes from an offset on. -/
def findings : Extractor → Index → Nat → List Invocation
  | calls, ix, origin => ix.statementsFrom origin
  | definitions, ix, origin => ix.definitionsFrom origin

/-- One turn of the innermost loop. A list is searched for all its invocations, and each of them is
searched before the next; the text is searched for those with the mark behind them, and is gone on
with behind such a one, or between the parentheses of any other. Without anything to find in the
text there is no further turn. -/
def turn (e : Extractor) (ix : Index) (s : Extraction) :
    Except Index.BadLimit (Option Extraction) := do
  match s.lists with
  | [] =>
    match ← ix.nextChecked s.pos ix.size with
    | none => return none
    | some (i, _) =>
      if ← ix.followedByChecked i e.mark then
        return some { pos := i.stop, lists := e.opened i, found := s.found ++ [i] }
      else return some { s with pos := i.lparen + 1 }
  | l :: lists =>
    match ← ix.nextChecked l.pos l.outer.rparen with
    | none => return some { s with lists }
    | some (i, _) =>
      return some { s with
        lists := ⟨i, i.lparen + 1⟩ :: ⟨l.outer, i.stop⟩ :: lists, found := s.found ++ [i] }

/-- A run to the end, from a state on: the states it passes through, and what it has taken. -/
inductive RunsFrom (e : Extractor) (ix : Index) :
    Extraction → List Extraction → List Invocation → Prop
  | done {s : Extraction} (h : e.turn ix s = .ok none) : RunsFrom e ix s [s] s.found
  | turn {s s' : Extraction} {run : List Extraction} {found : List Invocation}
    (h : e.turn ix s = .ok (some s')) (hrun : RunsFrom e ix s' run found) :
    RunsFrom e ix s (s :: run) found

/-- What a turn does when no check fails. -/
inductive Moves (e : Extractor) (ix : Index) : Extraction → Extraction → Prop
  | pass {pos : Nat} {found : List Invocation} {i : Invocation}
    (hnext : ix.next pos ix.size = some i) (hmark : ix.followedBy i e.mark = false) :
    Moves e ix ⟨pos, [], found⟩ ⟨i.lparen + 1, [], found⟩
  | take {pos : Nat} {found : List Invocation} {i : Invocation}
    (hnext : ix.next pos ix.size = some i) (hmark : ix.followedBy i e.mark = true) :
    Moves e ix ⟨pos, [], found⟩ ⟨i.stop, e.opened i, found ++ [i]⟩
  | leave {pos : Nat} {l : OpenList} {lists : List OpenList} {found : List Invocation}
    (hnext : ix.next l.pos l.outer.rparen = none) :
    Moves e ix ⟨pos, l :: lists, found⟩ ⟨pos, lists, found⟩
  | enter {pos : Nat} {l : OpenList} {lists : List OpenList} {found : List Invocation}
    {i : Invocation} (hnext : ix.next l.pos l.outer.rparen = some i) :
    Moves e ix ⟨pos, l :: lists, found⟩
      ⟨pos, ⟨i, i.lparen + 1⟩ :: ⟨l.outer, i.stop⟩ :: lists, found ++ [i]⟩

end Extractor

/-! ## What every turn keeps -/

/-- A list of the text that is searched from a boundary between its parentheses. -/
structure OpenList.Sound (text : List Char) (l : OpenList) : Prop where
  occurs : l.outer.Occurs text
  boundary : isBoundary text l.pos
  lparen_lt : l.outer.lparen < l.pos
  le_rparen : l.pos ≤ l.outer.rparen

namespace Extraction

/-- The invocations whose lists are open, the innermost first. -/
def around (s : Extraction) : List Invocation :=
  s.lists.map (·.outer)

/-- The searches of an extraction go on from boundaries, and each list that is open lies in the next
one. -/
structure Sound (text : List Char) (s : Extraction) : Prop where
  boundary : isBoundary text s.pos
  lists : ∀ l ∈ s.lists, l.Sound text
  nested : s.around.IsChain Invocation.Within

/-- Where each loop goes on, the innermost first. -/
def positions (s : Extraction) : List Nat :=
  s.lists.map (·.pos) ++ [s.pos]

/-- The window of the search that comes next: where it starts, and what it must stay before. -/
def window (ix : Index) (s : Extraction) : Nat × Nat :=
  match s.lists with
  | [] => (s.pos, ix.size)
  | l :: _ => (l.pos, l.outer.rparen)

/-- The bytes that are still to be searched, and one more for each list that is open. -/
def left (ix : Index) (s : Extraction) : Nat :=
  s.lists.foldr (fun l n ↦ l.outer.rparen - l.pos + 1 + n) (ix.size - s.pos)

/-- What is still to be taken. -/
def ahead (e : Extractor) (ix : Index) (s : Extraction) : List Invocation :=
  (s.lists.flatMap fun l ↦ (ix.forest l.pos l.outer.rparen).preorder) ++ e.findings ix s.pos

end Extraction

/-- What one turn does to the positions: the innermost loop ends, or it moves on, or it moves on and
a new one is begun. -/
inductive Advances : List Nat → List Nat → Prop
  | ended (p : Nat) (rest : List Nat) : Advances (p :: rest) rest
  | moved {p p' : Nat} (h : p < p') (rest : List Nat) : Advances (p :: rest) (p' :: rest)
  | begun {p p' : Nat} (h : p < p') (q : Nat) (rest : List Nat) :
    Advances (p :: rest) (q :: p' :: rest)

section

variable {e : Extractor} {ix : Index} {text : List Char} {s s' : Extraction}
  {run : List Extraction} {found : List Invocation} {i : Invocation}

/-- A list that is opened is searched from its opening parenthesis on. -/
theorem Invocation.Occurs.openList_sound (hi : i.Occurs text) :
    OpenList.Sound text ⟨i, i.lparen + 1⟩ where
  occurs := hi
  boundary := hi.cutsAt.behind_lparen
  lparen_lt := Nat.lt_succ_self _
  le_rparen := i.offsets_lt.2.1

theorem Extraction.sound_start (text : List Char) : Extraction.Sound text {} where
  boundary := isBoundary_of_split (List.nil_append text).symm
  lists := nofun
  nested := .nil

/-- **No check fails**: there is nothing left to find in the text, or the extraction moves on. -/
theorem Extraction.Sound.turn_cases (hs : s.Sound text) (e : Extractor) :
    (e.turn (Index.ofText text) s = .ok none ∧ s.lists = [] ∧
      (Index.ofText text).next s.pos (Index.ofText text).size = none) ∨
    ∃ s', e.turn (Index.ofText text) s = .ok (some s') ∧ e.Moves (Index.ofText text) s s' := by
  obtain ⟨pos, lists, taken⟩ := s
  cases lists with
  | nil =>
    have hend : isBoundary text (Index.ofText text).size :=
      isBoundary_of_split (List.append_nil text).symm
    have hchecked := nextChecked_ofText pos hend
    cases hnext : (Index.ofText text).next pos (Index.ofText text).size with
    | none =>
      rw [hnext] at hchecked
      refine .inl ⟨?_, rfl, rfl⟩
      simp only [Extractor.turn, hchecked]
      rfl
    | some i =>
      rw [hnext] at hchecked
      have hfollowed := followedByChecked_ofText (occurs_of_next hnext) e.mark
      cases hmark : (Index.ofText text).followedBy i e.mark with
      | false =>
        rw [hmark] at hfollowed
        refine .inr ⟨_, ?_, .pass hnext hmark⟩
        simp only [Extractor.turn, hchecked, Option.map_some, bind, Except.bind, hfollowed]
        rfl
      | true =>
        rw [hmark] at hfollowed
        refine .inr ⟨_, ?_, .take hnext hmark⟩
        simp only [Extractor.turn, hchecked, Option.map_some, bind, Except.bind, hfollowed]
        rfl
  | cons l lists =>
    have hchecked := nextChecked_ofText l.pos (hs.lists l List.mem_cons_self).occurs.cutsAt.rparen
    cases hnext : (Index.ofText text).next l.pos l.outer.rparen with
    | none =>
      rw [hnext] at hchecked
      refine .inr ⟨_, ?_, .leave hnext⟩
      simp only [Extractor.turn, hchecked]
      rfl
    | some i =>
      rw [hnext] at hchecked
      refine .inr ⟨_, ?_, .enter hnext⟩
      simp only [Extractor.turn, hchecked]
      rfl

theorem Extraction.Sound.moves_of_turn (hs : s.Sound text)
    (h : e.turn (Index.ofText text) s = .ok (some s')) : e.Moves (Index.ofText text) s s' := by
  rcases hs.turn_cases e with ⟨hnone, -⟩ | ⟨s'', hsome, hmoves⟩
  · rw [h] at hnone
    cases hnone
  · rw [h] at hsome
    cases hsome
    exact hmoves

/-! ### What is ahead -/

/-- A forest begins with the next invocation of its window. -/
theorem Index.preorder_forest_eq (ix : Index) (origin limit : Nat) :
    (ix.forest origin limit).preorder =
      match ix.next origin limit with
      | none => []
      | some i => i :: ((ix.forest (i.lparen + 1) i.rparen).preorder ++
          (ix.forest i.stop limit).preorder) := by
  rw [Index.forest]
  split
  · rename_i hnone
    rw [hnone]
    rfl
  · rename_i i hsome
    rw [hsome]
    rfl

/-- An extractor takes the next invocation if its mark stands behind it, and with it what it opens;
any other it goes into. -/
theorem Extractor.findings_eq (e : Extractor) (ix : Index) (origin : Nat) :
    e.findings ix origin =
      match ix.next origin ix.size with
      | none => []
      | some i =>
        if ix.followedBy i e.mark then
          i :: (((e.opened i).flatMap fun l ↦ (ix.forest l.pos l.outer.rparen).preorder) ++
            e.findings ix i.stop)
        else e.findings ix (i.lparen + 1) := by
  cases e with
  | calls =>
    rw [findings, Index.statementsFrom]
    split
    · rename_i hnone
      rw [hnone]
    · rename_i i hsome
      rw [hsome]
      dsimp only
      rw [opened, List.flatMap_singleton]
      rfl
  | definitions =>
    rw [findings, Index.definitionsFrom]
    split
    · rename_i hnone
      rw [hnone]
    · rename_i i hsome
      rw [hsome]
      rfl

namespace Extractor.Moves

/-- **Every turn is sound.** -/
theorem sound (h : e.Moves (Index.ofText text) s s') (hs : s.Sound text) : s'.Sound text := by
  cases h with
  | pass hnext hmark =>
    exact ⟨(occurs_of_next hnext).cutsAt.behind_lparen, hs.lists, hs.nested⟩
  | take hnext hmark =>
    have hi := occurs_of_next hnext
    cases e with
    | calls =>
      refine ⟨hi.cutsAt.stop, fun l hl ↦ ?_, .singleton _⟩
      rw [List.mem_singleton.mp hl]
      exact hi.openList_sound
    | definitions => exact ⟨hi.cutsAt.stop, nofun, .nil⟩
  | @leave pos l lists found hnext =>
    exact ⟨hs.boundary, fun k hk ↦ hs.lists k (List.mem_cons_of_mem l hk), hs.nested.tail⟩
  | @enter pos l lists found i hnext =>
    have hi := occurs_of_next hnext
    obtain ⟨hstart, hlparen, hrparen, hstop, hlimit⟩ := Index.offsets_of_next hnext
    have hl := hs.lists l List.mem_cons_self
    have hopen : l.outer.lparen < i.start := Nat.lt_of_lt_of_le hl.lparen_lt hstart
    have hwithin : i.Within l.outer := ⟨hopen, hlimit⟩
    refine ⟨hs.boundary, fun k hk ↦ ?_, List.isChain_cons_cons.mpr ⟨hwithin, hs.nested⟩⟩
    rcases List.mem_cons.mp hk with rfl | hk
    · exact hi.openList_sound
    · rcases List.mem_cons.mp hk with rfl | hk
      · exact ⟨hl.occurs, hi.cutsAt.stop, by dsimp only; omega, hlimit⟩
      · exact hs.lists k (List.mem_cons_of_mem l hk)

/-- **Every turn moves the innermost loop on, or ends it.** -/
theorem advances (h : e.Moves ix s s') : Advances s.positions s'.positions := by
  cases h with
  | @pass pos found i hnext hmark =>
    obtain ⟨hstart, hlparen, -⟩ := Index.offsets_of_next hnext
    have hlt : pos < i.lparen + 1 := by omega
    exact .moved hlt []
  | @take pos found i hnext hmark =>
    obtain ⟨hstart, hlparen, hrparen, hstop, -⟩ := Index.offsets_of_next hnext
    have hlt : pos < i.stop := by omega
    cases e with
    | calls => exact .begun hlt (i.lparen + 1) []
    | definitions => exact .moved hlt []
  | leave hnext => exact .ended _ _
  | @enter pos l lists found i hnext =>
    obtain ⟨hstart, hlparen, hrparen, hstop, -⟩ := Index.offsets_of_next hnext
    have hlt : l.pos < i.stop := by omega
    exact .begun hlt (i.lparen + 1) _

/-- **Every turn leaves less to search.** -/
theorem left_lt (h : e.Moves ix s s') : s'.left ix < s.left ix := by
  cases h with
  | pass hnext hmark =>
    have hoff := Index.offsets_of_next hnext
    simp only [Extraction.left, List.foldr_nil]
    omega
  | take hnext hmark =>
    have hoff := Index.offsets_of_next hnext
    cases e with
    | calls =>
      simp only [Extraction.left, opened, List.foldr_cons, List.foldr_nil]
      omega
    | definitions =>
      simp only [Extraction.left, opened, List.foldr_nil]
      omega
  | leave hnext =>
    simp only [Extraction.left, List.foldr_cons]
    omega
  | enter hnext =>
    have hoff := Index.offsets_of_next hnext
    simp only [Extraction.left, List.foldr_cons]
    omega

/-- **Every turn keeps what has been taken and what is ahead.** -/
theorem found_append_ahead (h : e.Moves ix s s') :
    s'.found ++ s'.ahead e ix = s.found ++ s.ahead e ix := by
  cases h with
  | @pass pos found i hnext hmark =>
    have hpos := e.findings_eq ix pos
    simp only [hnext, hmark, Bool.false_eq_true, if_false] at hpos
    simp only [Extraction.ahead, List.flatMap_nil, hpos]
  | @take pos found i hnext hmark =>
    have hpos := e.findings_eq ix pos
    simp only [hnext, hmark, if_true] at hpos
    simp only [Extraction.ahead, List.flatMap_nil, hpos, List.nil_append, List.append_assoc,
      List.singleton_append]
  | @leave pos l lists found hnext =>
    have hlist := ix.preorder_forest_eq l.pos l.outer.rparen
    simp only [hnext] at hlist
    simp only [Extraction.ahead, List.flatMap_cons, hlist, List.nil_append]
  | @enter pos l lists found i hnext =>
    have hlist := ix.preorder_forest_eq l.pos l.outer.rparen
    simp only [hnext] at hlist
    simp only [Extraction.ahead, List.flatMap_cons, hlist, List.append_assoc, List.cons_append,
      List.nil_append]

end Extractor.Moves

/-! ## Whole runs -/

/-- **Every extraction ends**, in no more turns than there is left to search: the states are one
more. -/
theorem Extraction.Sound.exists_runsFrom (hs : s.Sound text) (e : Extractor) :
    ∃ run found, e.RunsFrom (Index.ofText text) s run found ∧
      run.length ≤ s.left (Index.ofText text) + 1 := by
  induction hleft : s.left (Index.ofText text) using Nat.strong_induction_on generalizing s with
  | _ n ih =>
    subst hleft
    rcases hs.turn_cases e with ⟨hnone, -⟩ | ⟨s', hsome, hmoves⟩
    · exact ⟨[s], s.found, .done hnone, by simp⟩
    · have hlt := hmoves.left_lt
      obtain ⟨run, found, hrun, hlen⟩ := ih _ hlt (hmoves.sound hs) rfl
      refine ⟨s :: run, found, .turn hsome hrun, ?_⟩
      rw [List.length_cons]
      omega

namespace Extractor.RunsFrom

theorem exists_cons (h : e.RunsFrom ix s run found) : ∃ rest, run = s :: rest := by
  cases h with
  | done h => exact ⟨[], rfl⟩
  | turn h hrun => exact ⟨_, rfl⟩

theorem sound (h : e.RunsFrom (Index.ofText text) s run found) (hs : s.Sound text) :
    ∀ x ∈ run, x.Sound text := by
  induction h with
  | done h =>
    intro x hx
    rwa [List.mem_singleton.mp hx]
  | turn h hrun ih =>
    intro x hx
    rcases List.mem_cons.mp hx with rfl | hx
    · exact hs
    · exact ih ((hs.moves_of_turn h).sound hs) x hx

theorem advances (h : e.RunsFrom (Index.ofText text) s run found) (hs : s.Sound text) :
    run.IsChain fun x y ↦ Advances x.positions y.positions := by
  induction h with
  | done h => exact .singleton _
  | turn h hrun ih =>
    have hmoves := hs.moves_of_turn h
    obtain ⟨rest, rfl⟩ := hrun.exists_cons
    exact List.isChain_cons_cons.mpr ⟨hmoves.advances, ih (hmoves.sound hs)⟩

theorem found_eq (h : e.RunsFrom (Index.ofText text) s run found) (hs : s.Sound text) :
    found = s.found ++ s.ahead e (Index.ofText text) := by
  induction h with
  | @done s h =>
    rcases hs.turn_cases e with ⟨-, hlists, hnone⟩ | ⟨s', hsome, -⟩
    · rw [Extraction.ahead, hlists, findings_eq, hnone, List.flatMap_nil, List.append_nil,
        List.append_nil]
    · rw [h] at hsome
      cases hsome
  | turn h hrun ih =>
    have hmoves := hs.moves_of_turn h
    rw [ih (hmoves.sound hs), hmoves.found_append_ahead]

end Extractor.RunsFrom

/-- The window of a search has its ends at boundaries. -/
theorem Extraction.Sound.window_boundaries (hs : s.Sound text) :
    isBoundary text (s.window (Index.ofText text)).1 ∧
      isBoundary text (s.window (Index.ofText text)).2 ∧
      (s.window (Index.ofText text)).1 ≤ (s.window (Index.ofText text)).2 := by
  rw [Extraction.window]
  split
  · exact ⟨hs.boundary, isBoundary_of_split (List.append_nil text).symm,
      le_byteLength_of_isBoundary hs.boundary⟩
  · rename_i l lists hlists
    have hl := hs.lists l (hlists ▸ List.mem_cons_self)
    exact ⟨hl.boundary, hl.occurs.cutsAt.rparen, hl.le_rparen⟩

end

/-- A search from `origin` on and before `limit` that cannot fail. -/
structure SafeSearch (text : List Char) (origin limit : Nat) : Prop where
  /-- The window lies within the text, and its ends are boundaries. -/
  range : origin ≤ limit ∧ limit ≤ byteLength text
  boundaries : isBoundary text origin ∧ isBoundary text limit
  /-- The search answers, as does reading the text before the limit from head to head. -/
  answers : (Index.ofText text).search origin limit =
    .ok (scanWindow (takeBytes limit text) (partners text) limit origin)
  /-- That reading moves on from each head it comes to, and goes on from a boundary. -/
  moves_on : ∀ (pos : Nat) (h : Head),
    (heads (takeBytes limit text)).find? (fun h ↦ decide (pos ≤ h.start)) = some h →
    pos < h.lparen + 1 ∧ h.lparen + 1 ≤ limit ∧ isBoundary text (h.lparen + 1)
  /-- What is found has its arguments, and what stands behind it, between boundaries. -/
  slices : ∀ i : Invocation, (Index.ofText text).search origin limit = .ok (some i) →
    i.lparen + 1 ≤ i.rparen ∧ i.rparen < i.stop ∧ i.stop ≤ byteLength text ∧ i.CutsAt text

theorem safeSearch_of_isBoundary {text : List Char} {origin limit : Nat}
    (horigin : isBoundary text origin) (hlimit : isBoundary text limit) (hle : origin ≤ limit) :
    SafeSearch text origin limit := by
  obtain ⟨before, after, htext, hlen⟩ := exists_split_of_isBoundary hlimit
  have htake : takeBytes limit text = before := by rw [← hlen, htext, takeBytes_byteLength]
  constructor
  · exact ⟨hle, le_byteLength_of_isBoundary hlimit⟩
  · exact ⟨horigin, hlimit⟩
  · rw [search_ofText origin hlimit, htake, ← hlen, scanWindow_eq_next htext]
  · intro pos h hfind
    rw [htake] at hfind
    have hmem := List.mem_of_find?_eq_some hfind
    have hpos := List.find?_some hfind
    rw [decide_eq_true_eq] at hpos
    have hlt := lt_lparen_of_mem_heads hmem
    have ho := (Head.occursFrom_append_left_iff after).mp (mem_headsFrom.mp hmem)
    rw [← htext] at ho
    exact ⟨by omega, by omega, ho.1.isBoundary_succ⟩
  · intro i hi
    rw [search_ofText origin hlimit, Except.ok.injEq] at hi
    have hoccurs := occurs_of_next hi
    obtain ⟨-, hlparen, hrparen⟩ := i.offsets_lt
    exact ⟨hlparen, by omega, hoccurs.stop_le, hoccurs.cutsAt⟩

/-- An extraction from the start of a text to its end in which no check fails. -/
structure Extractor.SafeRun (e : Extractor) (text : List Char) (run : List Extraction)
    (found : List Invocation) : Prop where
  /-- It runs to its end. -/
  complete : e.RunsFrom (Index.ofText text) {} run found
  /-- There are no more turns than bytes, and one more state than turns. -/
  length_le : run.length ≤ byteLength text + 1
  searches : ∀ s ∈ run,
    SafeSearch text (s.window (Index.ofText text)).1 (s.window (Index.ofText text)).2
  /-- Each turn moves the innermost loop on, or ends it. -/
  advances : run.IsChain fun s s' ↦ Advances s.positions s'.positions
  /-- The invocations whose lists are searched lie one inside the other. -/
  nested : ∀ s ∈ run, s.around.IsChain Invocation.Within

theorem Extractor.exists_safeRun (e : Extractor) (text : List Char) :
    ∃ run, e.SafeRun text run (e.findings (Index.ofText text) 0) := by
  have hs := Extraction.sound_start text
  obtain ⟨run, found, hrun, hlen⟩ := hs.exists_runsFrom e
  have hfound : found = e.findings (Index.ofText text) 0 := hrun.found_eq hs
  rw [hfound] at hrun
  refine ⟨run, hrun, hlen, fun s hmem ↦ ?_, hrun.advances hs, fun s hmem ↦ ?_⟩
  · obtain ⟨horigin, hlimit, hle⟩ := (hrun.sound hs s hmem).window_boundaries
    exact safeSearch_of_isBoundary horigin hlimit hle
  · exact (hrun.sound hs s hmem).nested

/-- **Extraction never fails and always ends.** With every offset checked before it is used, the
calls of each line and the definitions of the whole text are found by runs in which no check fails,
each loop moves on with every turn, and lists are searched inside lists only; and they are those
that the extractors find unchecked. -/
theorem extraction_never_fails (keywords : Keywords) (text : List Char) :
    (∀ line ∈ lines text, ∃ run found, Extractor.calls.SafeRun line run found ∧
      calledOn keywords line = (found.map (·.name)).filter (isCallable keywords)) ∧
    ∃ run found, Extractor.definitions.SafeRun text run found ∧
      declared keywords text =
        .ofList ((found.map (·.name)).filter fun name ↦ !keywords.contains name) := by
  refine ⟨fun line _ ↦ ?_, ?_⟩
  · obtain ⟨run, hrun⟩ := Extractor.calls.exists_safeRun line
    exact ⟨run, _, hrun, rfl⟩
  · obtain ⟨run, hrun⟩ := Extractor.definitions.exists_safeRun text
    exact ⟨run, _, hrun, rfl⟩

end CallSites
