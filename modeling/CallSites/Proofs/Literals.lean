import Mathlib.Logic.Relation
import CallSites.Proofs.Characters
import CallSites.Proofs.LineByLine
import CallSites.Proofs.MovedOffsets

/-!
# What stands in a literal does not matter

Heads are looked for everywhere, inside literals too, and only the pairing pass knows where a
literal is. Still, what a literal holds has no influence on the calls of its line. Three things keep
it out. A quote can stand neither in a name nor between a name and its parenthesis, so no head
reaches across one, and the heads before, in and behind a literal are found independently. A
parenthesis in a literal is in no pair, so heads in it begin no invocation. And the first character
behind an invocation that is not blank is at the latest the opening quote.

Each text is compared with the one whose literal is empty. Everything behind the literal moves by as
many bytes as it holds, a strictly increasing map, and offsets are only ever compared.
-/

namespace CallSites

open Text

/-! ## Signs and their characters -/

/-- The character that opens and closes a literal. -/
def Quote.char : Quote → Char
  | .single => '\''
  | .double => '"'

/-- The only character of a sign. Plain ones are many. -/
def Sign.char? : Sign → Option Char
  | .quote q => some q.char
  | .backslash => some '\\'
  | .lineEnd => some '\n'
  | .opening => some '('
  | .closing => some ')'
  | .plain => none

theorem Sign.eq_of_mem_char? {c d : Char} (h : d ∈ (Sign.ofCode c.toNat).char?) : c = d := by
  unfold Sign.ofCode at h
  split_ifs at h <;> cases h <;> exact Char.toNat_inj.mp ‹_›

theorem Sign.ofCode_eq_plain {c : Char} (h : ∀ sign : Sign, c ∉ sign.char?) :
    Sign.ofCode c.toNat = .plain := by
  cases hchar : (Sign.ofCode c.toNat).char? with
  | some d =>
    obtain rfl := Sign.eq_of_mem_char? hchar
    exact absurd hchar (h _)
  | none =>
    cases hsign : Sign.ofCode c.toNat with
    | plain => rfl
    | _ =>
      rw [hsign] at hchar
      exact absurd hchar nofun

@[simp]
theorem Quote.ofCode_char (q : Quote) : Sign.ofCode q.char.toNat = .quote q := by
  cases q <;> rfl

@[simp]
theorem Quote.utf8Size_char (q : Quote) : q.char.utf8Size = 1 := by
  cases q <;> rfl

/-- A name means nothing to the pass. -/
theorem Sign.ofCode_of_isWord {c : Char} (h : isWord c) : Sign.ofCode c.toNat = .plain := by
  refine Sign.ofCode_eq_plain ?_
  rintro (⟨_ | _⟩ | _ | _ | _ | _ | _) ⟨⟩ <;> exact absurd h (by decide)

/-- Neither do blanks within a line. -/
theorem Sign.ofCode_of_isBlank {c : Char} (h : isBlank c) (hfeed : c ≠ '\n') :
    Sign.ofCode c.toNat = .plain := by
  refine Sign.ofCode_eq_plain ?_
  rintro (⟨_ | _⟩ | _ | _ | _ | _ | _) ⟨⟩
  case lineEnd => exact hfeed rfl
  all_goals exact absurd h (by decide)

theorem Quote.endsHeads (q : Quote) (cs : List Char) : EndsHeads (q.char :: cs) := by
  rintro c ⟨⟩
  cases q <;> decide

/-! ## Literals -/

/-- In a literal of the given kind, right behind a backslash or not. -/
def Mode.Inside (q : Quote) (m : Mode) : Prop :=
  m = .literal q ∨ m = .escaped q

/-- `contents` is what a literal of the line `before ++ q.char :: (contents ++ rest)` holds: the
pass meets the opening quote in code and stays in the literal up to the end of `contents`, where
either the line is over or the closing quote stands. -/
structure IsLiteral (q : Quote) (before contents rest : List Char) : Prop where
  opens : (Pairing.run .bytes (encode before)).mode = .code
  inside : ∀ front, front <+: contents →
    (Pairing.run .bytes (encode (before ++ q.char :: front))).mode.Inside q
  ends : rest = [] ∨ (∃ after, rest = q.char :: after) ∧
    (Pairing.run .bytes (encode (before ++ q.char :: contents))).mode = .literal q

/-- Texts without a line feed in which quotes of the given kind stand only behind a backslash, and
each backslash has a character to go with. -/
inductive Quote.Contents (q : Quote) : List Char → Prop where
  | nil : q.Contents []
  | plain {c : Char} {cs : List Char} (hfeed : c ≠ '\n') (hback : c ≠ '\\') (hquote : c ≠ q.char)
      (h : q.Contents cs) : q.Contents (c :: cs)
  | escape {c : Char} {cs : List Char} (hfeed : c ≠ '\n') (h : q.Contents cs) :
      q.Contents ('\\' :: c :: cs)

/-- What a literal may hold in front of `rest`. If the line ends with the literal, a backslash may
be left over. -/
def Quote.Fits (q : Quote) (contents rest : List Char) : Prop :=
  q.Contents contents ∨ rest = [] ∧ ∃ front, q.Contents front ∧ contents = front ++ ['\\']

theorem Quote.Contents.feed_not_mem {q : Quote} {cs : List Char} (h : q.Contents cs) :
    '\n' ∉ cs := by
  induction h with
  | nil => exact List.not_mem_nil
  | plain hfeed _ _ _ ih =>
    rw [List.mem_cons, not_or]
    exact ⟨hfeed.symm, ih⟩
  | escape hfeed _ ih =>
    rw [List.mem_cons, List.mem_cons, not_or, not_or]
    exact ⟨by decide, hfeed.symm, ih⟩

theorem Quote.Fits.feed_not_mem {q : Quote} {contents rest : List Char}
    (h : q.Fits contents rest) : '\n' ∉ contents := by
  rcases h with h | ⟨-, front, h, rfl⟩
  · exact h.feed_not_mem
  · rw [List.mem_append, List.mem_singleton]
    exact not_or.mpr ⟨h.feed_not_mem, by decide⟩

/-! ### Reading a literal -/

theorem Mode.next_literal {q : Quote} {c : Char} (hfeed : c ≠ '\n') (hback : c ≠ '\\')
    (hquote : c ≠ q.char) : (Mode.literal q).next (.ofCode c.toNat) = .literal q := by
  have hchar : ∀ d ∈ (Sign.ofCode c.toNat).char?, c = d := fun _ ↦ Sign.eq_of_mem_char?
  generalize Sign.ofCode c.toNat = sign at hchar ⊢
  cases sign with
  | quote q' =>
    refine if_neg ?_
    rintro rfl
    exact hquote (hchar _ rfl)
  | backslash => exact absurd (hchar _ rfl) hback
  | lineEnd => exact absurd (hchar _ rfl) hfeed
  | _ => rfl

namespace Pairing

variable {s : State} {q : Quote} {before : List Char}

/-- Contents are read inside their literal, and leave it open. -/
theorem mode_read_contents {cs : List Char} (h : q.Contents cs) (hs : s.mode = .literal q) :
    (s.read .characters cs).mode = .literal q ∧
      ∀ front, front <+: cs → (s.read .characters front).mode.Inside q := by
  induction h generalizing s with
  | nil =>
    refine ⟨hs, ?_⟩
    intro front hfront
    rw [List.prefix_nil.mp hfront]
    exact .inl hs
  | @plain c cs hfeed hback hquote _ ih =>
    have hmode : (s.step (.ofCode c.toNat) c.utf8Size).mode = .literal q := by
      rw [State.step_mode, hs, Mode.next_literal hfeed hback hquote]
    refine ⟨(ih hmode).1, ?_⟩
    intro front hfront
    rcases List.prefix_cons_iff.mp hfront with rfl | ⟨more, rfl, hmore⟩
    · exact .inl hs
    · exact (ih hmode).2 more hmore
  | @escape c cs hfeed _ ih =>
    have hback : (s.step (.ofCode '\\'.toNat) 1).mode = .escaped q := by
      rw [State.step_mode, hs]
      rfl
    have hmode :
        ((s.step (.ofCode '\\'.toNat) 1).step (.ofCode c.toNat) c.utf8Size).mode = .literal q := by
      rw [State.step_mode, hback]
      rfl
    refine ⟨(ih hmode).1, ?_⟩
    intro front hfront
    rcases List.prefix_cons_iff.mp hfront with rfl | ⟨behind, rfl, hbehind⟩
    · exact .inl hs
    rcases List.prefix_cons_iff.mp hbehind with rfl | ⟨more, rfl, hmore⟩
    · exact .inr hback
    · exact (ih hmode).2 more hmore

theorem mode_run_quote (h : (run .bytes (encode before)).mode = .code) (q : Quote) :
    (run .characters (before ++ [q.char])).mode = .literal q := by
  rw [run_encode] at h
  rw [run_concat, State.step_mode, h]
  change Mode.next .code (.ofCode q.char.toNat) = _
  rw [Quote.ofCode_char]
  rfl

end Pairing

namespace IsLiteral

variable {q : Quote} {before contents rest : List Char}

/-- **Whatever fits into a literal may stand in it.** -/
theorem of_fits (hopens : (Pairing.run .bytes (encode before)).mode = .code)
    (hfits : q.Fits contents rest) (hrest : rest = [] ∨ ∃ after, rest = q.char :: after) :
    IsLiteral q before contents rest := by
  have hmode := Pairing.mode_run_quote hopens q
  have hrun : ∀ cs, Pairing.run .bytes (encode (before ++ q.char :: cs)) =
      (Pairing.run .characters (before ++ [q.char])).read .characters cs := by
    intro cs
    rw [Pairing.run_encode, List.append_cons, Pairing.run_append]
  rcases hfits with hcontents | ⟨hnil, front, hfront, rfl⟩
  · obtain ⟨hlast, hinside⟩ := Pairing.mode_read_contents hcontents hmode
    refine ⟨hopens, ?_, ?_⟩
    · intro front hfront
      rw [hrun]
      exact hinside front hfront
    · rw [hrun]
      exact hrest.imp_right fun hafter ↦ ⟨hafter, hlast⟩
  · obtain ⟨hlast, hinside⟩ := Pairing.mode_read_contents hfront hmode
    refine ⟨hopens, ?_, .inl hnil⟩
    intro front' hprefix
    rw [hrun]
    rcases List.prefix_concat_iff.mp hprefix with rfl | hprefix
    · -- the backslash left over
      rw [Pairing.State.read_append, Pairing.State.read_cons, Pairing.State.read_nil]
      refine .inr ?_
      rw [Pairing.State.step_mode, hlast]
      rfl
    · exact hinside front' hprefix

theorem replace (h : IsLiteral q before contents rest) {contents' : List Char}
    (hfits : q.Fits contents' rest) : IsLiteral q before contents' rest :=
  of_fits h.opens hfits (h.ends.imp_right And.left)

end IsLiteral

/-! ## Moving what stands behind a literal -/

/-- Where offset `n` comes to stand once `k` bytes are put in behind the byte at offset `m`. -/
def widen (m k n : Nat) : Nat :=
  if m < n then n + k else n

section Widen

variable {m k n : Nat}

theorem strictMono_widen (m k : Nat) : StrictMono (widen m k) := by
  intro a b hlt
  unfold widen
  split_ifs <;> omega

theorem widen_of_le (h : n ≤ m) : widen m k n = n :=
  if_neg (Nat.not_lt.mpr h)

theorem widen_of_lt (h : m < n) : widen m k n = n + k :=
  if_pos h

/-- Nothing comes to stand on the bytes that are put in. -/
theorem widen_ne (hlt : m < n) (hle : n ≤ m + k) (x : Nat) : widen m k x ≠ n := by
  unfold widen
  split_ifs <;> omega

end Widen

namespace Pairing

variable {s : State} {q : Quote} {before contents : List Char}

/-- Quotes, and all that stands in literals, leave the parentheses alone. -/
theorem State.step_keeps {sign : Sign} (h : s.mode = .code → ∃ q, sign = .quote q) (width : Nat) :
    (s.step sign width).waiting = s.waiting ∧ (s.step sign width).pairs = s.pairs := by
  rcases s.step_cases sign width with ⟨hmode, hsign, -⟩ | ⟨o, more, hmode, hsign, -⟩ | ⟨-, hkeeps⟩
  · obtain ⟨q, hq⟩ := h hmode
    exact absurd (hsign.symm.trans hq) nofun
  · obtain ⟨q, hq⟩ := h hmode
    exact absurd (hsign.symm.trans hq) nofun
  · exact hkeeps

/-- **The pass takes nothing from a literal.** -/
theorem run_literal (hinside : ∀ front, front <+: contents →
      (run .bytes (encode (before ++ q.char :: front))).mode.Inside q) :
    (run .characters (before ++ q.char :: contents)).waiting = (run .characters before).waiting ∧
      (run .characters (before ++ q.char :: contents)).pairs = (run .characters before).pairs := by
  induction contents using List.reverseRecOn with
  | nil =>
    rw [run_concat]
    exact State.step_keeps (fun _ ↦ ⟨q, q.ofCode_char⟩) _
  | append_singleton contents c ih =>
    have hmode := hinside contents (List.prefix_append _ _)
    obtain ⟨hwaiting, hpairs⟩ := ih fun front hfront ↦
      hinside front (hfront.trans (List.prefix_append _ _))
    rw [← List.cons_append, ← List.append_assoc, run_concat, ← hwaiting, ← hpairs]
    apply State.step_keeps
    intro hcode
    rw [run_encode, hcode] at hmode
    exact absurd hmode (by rintro (h | h) <;> exact absurd h nofun)

/-- What the pass has found stands before the place where it is. -/
theorem State.WellNested.map_widen (h : s.WellNested) (k : Nat) :
    s.waiting.map (widen s.offset k) = s.waiting ∧
      (s.pairs.map fun p ↦ (widen s.offset k p.1, widen s.offset k p.2)) = s.pairs := by
  constructor
  · refine (List.map_congr_left ?_).trans (List.map_id _)
    intro o ho
    exact widen_of_le (h.waiting_lt o ho).le
  · refine (List.map_congr_left ?_).trans (List.map_id _)
    intro p hp
    have hlt := h.pair_lt p hp
    rw [widen_of_le (by omega), widen_of_le (by omega)]
    rfl

end Pairing

/-- Heads stand before a quote or behind it. -/
theorem heads_quote (q : Quote) (before after : List Char) :
    heads (before ++ q.char :: after) =
      headsFrom 0 before ++ headsFrom (byteLength before + 1) after := by
  have hquote : isWord q.char = false := (q.endsHeads [] q.char rfl).1
  rw [heads, headsFrom_append (q.endsHeads _), headsFrom_cons hquote, q.utf8Size_char, Nat.zero_add]

theorem map_move_heads_quote (q : Quote) (before after : List Char) (k : Nat) :
    (heads (before ++ q.char :: after)).map (Head.move (widen (byteLength before) k)) =
      headsFrom 0 before ++ headsFrom (byteLength before + 1 + k) after := by
  rw [heads_quote, List.map_append, headsFrom_add (byteLength before + 1) k]
  congr 1
  · refine (List.map_congr_left ?_).trans (List.map_id _)
    intro hd hmem
    rw [mem_headsFrom] at hmem
    have hlparen := hmem.start_le_lparen
    have hlt := hmem.lparen_lt
    rw [Head.move, widen_of_le (by omega), widen_of_le (by omega)]
    rfl
  · refine List.map_congr_left ?_
    intro hd hmem
    rw [mem_headsFrom] at hmem
    have hstart := hmem.le_start
    have hlparen := hmem.start_le_lparen
    rw [Head.move, Head.move, widen_of_lt (by omega), widen_of_lt (by omega)]

namespace IsLiteral

variable {q : Quote} {before contents rest : List Char}

/-- The pairs of the line are those of the line with an empty literal, moved. -/
theorem pairs_eq (h : IsLiteral q before contents rest) :
    pairs (before ++ q.char :: (contents ++ rest)) =
      (pairs (before ++ q.char :: rest)).map fun p ↦
        (widen (byteLength before) (byteLength contents) p.1,
          widen (byteLength before) (byteLength contents) p.2) := by
  have hnil : ∀ front, front <+: [] →
      (Pairing.run .bytes (encode (before ++ q.char :: front))).mode.Inside q :=
    fun front hfront ↦ h.inside front (hfront.trans List.nil_prefix)
  obtain ⟨hwaiting, hpairs⟩ := Pairing.run_literal h.inside
  obtain ⟨hwaiting', hpairs'⟩ := Pairing.run_literal hnil
  have hwell := Pairing.wellNested_run (A := .characters) (fun c ↦ c.utf8Size_pos) before
  obtain ⟨hfixw, hfixp⟩ := hwell.map_widen (byteLength contents)
  rw [Pairing.offset_run_characters] at hfixw hfixp
  rw [pairs_eq_run, pairs_eq_run]
  rcases h.ends with rfl | ⟨-, hmode⟩
  · rw [List.append_nil, hpairs, hpairs', hfixp]
  · -- both passes are in the literal now, and read the same from here on
    have hmoved : Pairing.State.Moved (widen (byteLength before) (byteLength contents))
        (Pairing.run .characters (before ++ [q.char]))
        (Pairing.run .characters (before ++ q.char :: contents)) := by
      constructor
      · rw [Pairing.offset_run_characters, Pairing.offset_run_characters, byteLength_append,
          byteLength_append, byteLength_cons, byteLength_cons, q.utf8Size_char,
          widen_of_lt (by omega), byteLength_nil]
        omega
      · rw [Pairing.mode_run_quote h.opens, ← Pairing.run_encode, hmode]
      · rw [hwaiting, hwaiting', hfixw]
      · rw [hpairs, hpairs', hfixp]
    have hread := hmoved.read .characters (fun n hn width ↦ ?_) rest
    · rw [← Pairing.run_append, ← Pairing.run_append, List.append_assoc, List.append_assoc] at hread
      exact hread.pairs
    · rw [Pairing.offset_run_characters, byteLength_append, byteLength_cons, q.utf8Size_char] at hn
      rw [widen_of_lt (by omega), widen_of_lt (by omega)]
      omega

theorem endsHeads (h : IsLiteral q before contents rest) : EndsHeads rest := by
  rcases h.ends with rfl | ⟨⟨after, rfl⟩, -⟩
  · exact nofun
  · exact q.endsHeads after

/-- Heads in the literal begin no invocation. -/
theorem filterMap_complete?_contents (h : IsLiteral q before contents rest) :
    (headsFrom (byteLength before + 1) contents).filterMap
      (Head.complete? (partners (before ++ q.char :: (contents ++ rest)))) = [] := by
  rw [List.filterMap_eq_nil_iff]
  intro hd hmem
  rw [mem_headsFrom] at hmem
  have hstart := hmem.le_start
  have hlparen := hmem.start_le_lparen
  have hlt := hmem.lparen_lt
  rw [Option.eq_none_iff_forall_ne_some]
  intro i hi
  obtain ⟨-, -, hi, hget⟩ := Head.complete?_eq_some.mp hi
  rw [getElem?_partners, h.pairs_eq, List.mem_map] at hget
  obtain ⟨p, -, hp⟩ := hget
  rw [Prod.mk.injEq, hi] at hp
  exact widen_ne (by omega) (by omega) p.1 hp.1

theorem invocations_eq (h : IsLiteral q before contents rest) :
    (Index.ofText (before ++ q.char :: (contents ++ rest))).invocations =
      (Index.ofText (before ++ q.char :: rest)).invocations.map
        (Invocation.move (strictMono_widen (byteLength before) (byteLength contents))) := by
  simp only [Index.ofText]
  rw [heads_quote, headsFrom_append h.endsHeads, List.filterMap_append, List.filterMap_append,
    h.filterMap_complete?_contents, List.nil_append, ← List.filterMap_append,
    ← map_move_heads_quote, filterMap_complete?_map_move _ h.pairs_eq]

end IsLiteral

theorem head?_skipBlanks_append {rest : List Char} (hrest : EndsHeads rest) (cs : List Char) :
    (skipBlanks (cs ++ rest)).head? = (skipBlanks cs).head?.or rest.head? := by
  rw [skipBlanks, (takeWhile_dropWhile_append_stop (fun c hc ↦ (hrest c hc).2.1) cs).2,
    List.head?_append, ← skipBlanks]

/-- What follows an invocation stands before the literal, or is its opening quote, or stands behind
the literal. -/
theorem followedBy_widen {q : Quote} {before rest : List Char} {i : Invocation}
    (hi : i.Occurs (before ++ q.char :: rest)) (contents : List Char) (mark : Char) :
    (Index.ofText (before ++ q.char :: (contents ++ rest))).followedBy
        (i.move (strictMono_widen (byteLength before) (byteLength contents))) mark =
      (Index.ofText (before ++ q.char :: rest)).followedBy i mark := by
  obtain ⟨front, behind, htext, hlen⟩ := exists_split_of_mem_pairs hi.mem_pairs
  have hquote : q.char ≠ ')' := by cases q <;> decide
  rcases List.append_eq_append_iff.mp htext with
    ⟨between, hfront, hrest⟩ | ⟨between, hbefore, hbehind⟩
  · cases between with
    | nil => exact absurd (List.cons.inj hrest).1 hquote
    | cons c between =>
      rw [List.cons_append, List.cons.injEq] at hrest
      obtain ⟨rfl, hrest⟩ := hrest
      have htext' : before ++ q.char :: (contents ++ rest) =
          (before ++ q.char :: (contents ++ between)) ++ ')' :: behind := by
        simp [hrest]
      have hlen' : byteLength (before ++ q.char :: (contents ++ between)) =
          widen (byteLength before) (byteLength contents) i.rparen := by
        rw [hfront, byteLength_append, byteLength_cons, q.utf8Size_char] at hlen
        rw [widen_of_lt (by omega), ← hlen]
        simp only [byteLength_append, byteLength_cons, q.utf8Size_char]
        omega
      exact followedBy_move _ htext hlen htext' hlen' rfl mark
  · cases between with
    | nil => exact absurd (List.cons.inj hbehind).1.symm hquote
    | cons c between =>
      rw [List.cons_append, List.cons.injEq] at hbehind
      obtain ⟨rfl, hbehind⟩ := hbehind
      have htext' : before ++ q.char :: (contents ++ rest) =
          front ++ ')' :: (between ++ q.char :: (contents ++ rest)) := by
        simp [hbefore]
      have hlen' : byteLength front =
          widen (byteLength before) (byteLength contents) i.rparen := by
        rw [hbefore, byteLength_append, ← hlen, widen_of_le (Nat.le_add_right _ _)]
      refine followedBy_move _ htext hlen htext' hlen' ?_ mark
      rw [hbehind, head?_skipBlanks_append (q.endsHeads _), head?_skipBlanks_append (q.endsHeads _)]
      rfl

/-! ## Lines -/

namespace Text

theorem stripReturn_append {ds : List Char} (h : ds ≠ []) (cs : List Char) :
    stripReturn (cs ++ ds) = cs ++ stripReturn ds := by
  rw [stripReturn, stripReturn, List.getLast?_append_of_ne_nil cs h,
    List.dropLast_append_of_ne_nil h]
  split <;> rfl

theorem stripReturn_cons {c : Char} (hc : c ≠ '\r') (cs : List Char) :
    stripReturn (c :: cs) = c :: stripReturn cs := by
  cases cs with
  | nil => simp [stripReturn, hc]
  | cons d cs => exact stripReturn_append (List.cons_ne_nil d cs) [c]

/-- What may stand behind a line: nothing, or the ending of the line and more. -/
def EndsLine (below : List Char) : Prop :=
  below = [] ∨ ∃ more, below = '\n' :: more ∨ below = '\r' :: '\n' :: more

end Text

theorem calls_eq_of_lines {text text' line line' : List Char} {more : List (List Char)}
    {keywords : Keywords} (h : lines text = line :: more) (h' : lines text' = line' :: more)
    (hcalled : calledOn keywords line = calledOn keywords line') (file : String) :
    calls keywords file text = calls keywords file text' := by
  simp only [calls, h, h', List.zipIdx_cons, List.flatMap_cons, hcalled]

namespace IsLiteral

variable {q : Quote} {before contents rest below : List Char}

/-- **A literal might as well be empty**, for all that its line calls. -/
theorem calledOn_eq (h : IsLiteral q before contents rest) (keywords : Keywords) :
    calledOn keywords (before ++ q.char :: (contents ++ rest)) =
      calledOn keywords (before ++ q.char :: rest) := by
  have hmoved : Index.Moved (strictMono_widen (byteLength before) (byteLength contents))
      (Index.ofText (before ++ q.char :: rest))
      (Index.ofText (before ++ q.char :: (contents ++ rest))) :=
    ⟨h.invocations_eq, fun _ hi ↦ followedBy_widen (mem_invocations.mp hi) contents⟩
  exact hmoved.calledOn_eq keywords

/-- A carriage return that is taken off the line is taken from what stands behind the literal, or
from its contents if nothing does. -/
theorem calledOn_stripReturn (h : IsLiteral q before contents rest) (keywords : Keywords) :
    calledOn keywords (stripReturn (before ++ q.char :: (contents ++ rest))) =
      calledOn keywords (before ++ q.char :: stripReturn rest) := by
  have hquote : q.char ≠ '\r' := by cases q <;> decide
  rcases h.ends with rfl | ⟨⟨after, rfl⟩, hmode⟩
  · obtain ⟨ending, hending⟩ := exists_stripReturn_append contents
    have hkept : IsLiteral q before (stripReturn contents) [] := by
      refine ⟨h.opens, ?_, .inl rfl⟩
      intro front hfront
      exact h.inside front (hfront.trans ⟨ending, hending.symm⟩)
    rw [List.append_nil, stripReturn_append (List.cons_ne_nil _ _), stripReturn_cons hquote]
    have hcalled := hkept.calledOn_eq keywords
    rwa [List.append_nil] at hcalled
  · have hkept : IsLiteral q before contents (stripReturn (q.char :: after)) :=
      ⟨h.opens, h.inside, .inr ⟨⟨stripReturn after, stripReturn_cons hquote after⟩, hmode⟩⟩
    rw [← List.cons_append, ← List.append_assoc, stripReturn_append (List.cons_ne_nil _ _),
      List.append_assoc, List.cons_append, hkept.calledOn_eq keywords]

/-- The same in a text that goes on behind the line. -/
theorem calls_eq (h : IsLiteral q before contents rest)
    (hline : '\n' ∉ before ++ q.char :: (contents ++ rest)) (hbelow : EndsLine below)
    (keywords : Keywords) (file : String) :
    calls keywords file (before ++ q.char :: (contents ++ rest) ++ below) =
      calls keywords file (before ++ q.char :: rest ++ below) := by
  have hempty : '\n' ∉ before ++ q.char :: rest := by
    simp only [List.mem_append, List.mem_cons, not_or] at hline ⊢
    exact ⟨hline.1, hline.2.1, hline.2.2.2⟩
  have hne : ∀ cs, before ++ q.char :: cs ≠ [] := fun cs ↦
    List.append_ne_nil_of_right_ne_nil before (List.cons_ne_nil _ cs)
  rcases hbelow with rfl | ⟨more, rfl | rfl⟩
  · rw [List.append_nil, List.append_nil]
    exact calls_eq_of_lines (lines_of_not_mem (hne _) hline) (lines_of_not_mem (hne _) hempty)
      (h.calledOn_eq keywords) file
  · refine calls_eq_of_lines (lines_append_feed hline more) (lines_append_feed hempty more) ?_ file
    exact (h.calledOn_stripReturn keywords).trans
      ((h.replace (.inl .nil)).calledOn_stripReturn keywords).symm
  · exact calls_eq_of_lines (lines_append_return hline more) (lines_append_return hempty more)
      (h.calledOn_eq keywords) file

end IsLiteral

/-! ## Names -/

/-- `i` has its name on the line, and the pass is in code from the beginning of the name to its end.
-/
def Invocation.NameInCode (i : Invocation) (line : List Char) : Prop :=
  ∃ before after, line = before ++ (i.name.toList ++ after) ∧ byteLength before = i.start ∧
    ∀ front, front <+: i.name.toList →
      (Pairing.run .bytes (encode (before ++ front))).mode = .code

/-- Plain characters do not end a literal. -/
theorem Pairing.mode_read_ne_code {s : State} (hs : s.mode ≠ .code) {cs : List Char}
    (h : ∀ c ∈ cs, Sign.ofCode c.toNat = .plain) : (s.read .characters cs).mode ≠ .code := by
  induction cs generalizing s with
  | nil => exact hs
  | cons c cs ih =>
    refine ih ?_ fun d hd ↦ h d (List.mem_cons_of_mem c hd)
    change s.mode.next (.ofCode c.toNat) ≠ .code
    rw [h c List.mem_cons_self]
    cases hmode : s.mode with
    | code => exact absurd hmode hs
    | literal q => exact nofun
    | escaped q => exact nofun

/-- A parenthesis that has a partner stands in code. -/
theorem mode_of_mem_pairs {text before after : List Char} {o c : Nat} (h : (o, c) ∈ pairs text)
    (htext : text = before ++ after) (hlen : byteLength before = o) :
    (Pairing.run .characters before).mode = .code := by
  rw [pairs_eq_run] at h
  obtain ⟨cut, u, behind, hcut, -, hmode, hoffset⟩ :=
    ((Pairing.inCode_run .characters text).2 _ h).1
  rw [Pairing.offset_run_characters, ← hlen] at hoffset
  obtain ⟨between, rfl, -⟩ := exists_append_of_byteLength_le (htext.symm.trans hcut) hoffset.ge
  rw [byteLength_append, Nat.add_eq_left, byteLength_eq_zero] at hoffset
  rwa [hoffset, List.append_nil] at hmode

/-- **No name of an invocation reaches into a literal**, for then its parenthesis would stand there
too. -/
theorem Invocation.Occurs.nameInCode {i : Invocation} {line : List Char} (hi : i.Occurs line)
    (hline : '\n' ∉ line) : i.NameInCode line := by
  have hpair := hi.mem_pairs
  obtain ⟨hd, ⟨before, cs, rfl, -, hbegins⟩, hname, hstart, hlparen, -⟩ := hi
  obtain ⟨blanks, after, rfl, -, hword, -, hblanks, hs, hl⟩ := hbegins
  have hlist : i.name.toList = hd.name := by rw [hname, String.toList_ofList]
  refine ⟨before, blanks ++ '(' :: after, by rw [hlist], by omega, ?_⟩
  rintro front ⟨back, hback⟩
  rw [hlist] at hback
  rw [← hback] at hpair hl hword hline
  have htext : before ++ ((front ++ back) ++ (blanks ++ '(' :: after)) =
      ((before ++ front) ++ (back ++ blanks)) ++ '(' :: after := by
    simp only [List.append_assoc]
  have hlen : byteLength ((before ++ front) ++ (back ++ blanks)) = i.lparen := by
    simp only [byteLength_append] at hl ⊢
    omega
  have hplain : ∀ c ∈ back ++ blanks, Sign.ofCode c.toNat = .plain := by
    intro c hc
    rcases List.mem_append.mp hc with hc | hc
    · exact Sign.ofCode_of_isWord (hword c (List.mem_append_right front hc))
    · refine Sign.ofCode_of_isBlank (hblanks c hc) ?_
      rintro rfl
      simp [hc] at hline
  have hmode := mode_of_mem_pairs hpair htext hlen
  rw [Pairing.run_append] at hmode
  rw [Pairing.run_encode]
  by_contra hne
  exact Pairing.mode_read_ne_code hne hplain hmode

/-! ## Main result -/

/-- `text'` is `text` with other contents in one literal of one line. -/
inductive OtherContents : List Char → List Char → Prop where
  | replace {q : Quote} {above before contents contents' rest below : List Char}
      (habove : WholeLines above) (hline : '\n' ∉ before ++ q.char :: (contents ++ rest))
      (hbelow : EndsLine below) (hliteral : IsLiteral q before contents rest)
      (hfits : q.Fits contents' rest) :
      OtherContents (above ++ (before ++ q.char :: (contents ++ rest) ++ below))
        (above ++ (before ++ q.char :: (contents' ++ rest) ++ below))

theorem OtherContents.calls_eq {text text' : List Char} (h : OtherContents text text')
    (keywords : Keywords) (file : String) :
    calls keywords file text' = calls keywords file text := by
  obtain @⟨q, above, before, contents, contents', rest, below, habove, hline, hbelow, hliteral,
    hfits⟩ := h
  have hline' : '\n' ∉ before ++ q.char :: (contents' ++ rest) := by
    simp only [List.mem_append, List.mem_cons, not_or] at hline ⊢
    exact ⟨hline.1, hline.2.1, hfits.feed_not_mem, hline.2.2.2⟩
  rw [calls_append_lines keywords file habove, calls_append_lines keywords file habove,
    hliteral.calls_eq hline hbelow, (hliteral.replace hfits).calls_eq hline' hbelow]

/-- **What stands in literals has no influence on the calls.** Let the contents of a literal be
replaced by others that fit, and this as often as one likes. The calls stay the same, and so does
the record. Each call is recorded for an invocation of its own on its line, and no part of the name
of this invocation stands in a literal. -/
theorem calls_of_other_contents (keywords : Keywords) (file : String) {text text' : List Char}
    (h : Relation.ReflTransGen OtherContents text text') :
    calls keywords file text' = calls keywords file text ∧
      (FileFindings.ofText keywords file text').calls =
        (FileFindings.ofText keywords file text).calls ∧
      ∃ found : List Char → List Invocation,
        (∀ line ∈ lines text, (found line).Pairwise (fun i j ↦ i.start < j.start) ∧
          ∀ i ∈ found line, i.Occurs line ∧ i.NameInCode line) ∧
        calls keywords file text = ((lines text).zipIdx 1).flatMap fun (line, number) ↦
          (found line).map fun i ↦ { name := i.name, location := { file, line := number } } := by
  have hcalls : calls keywords file text' = calls keywords file text := by
    induction h with
    | refl => rfl
    | tail _ hstep ih => rw [hstep.calls_eq, ih]
  refine ⟨hcalls, by rw [FileFindings.ofText, FileFindings.ofText, hcalls], ?_⟩
  refine ⟨fun line ↦ ((Index.ofText line).statementsFrom 0).filter fun i ↦
    decide (i.name ∉ keywords.words ∧ i.name ∉ typeOperators), ?_, ?_⟩
  · intro line hline
    have hcaptures := captures_statementsFrom line
    rw [← map_snd_linesFrom 0, List.mem_map] at hline
    obtain ⟨⟨b, line'⟩, hmem, rfl⟩ := hline
    obtain ⟨-, -, -, -, -, hfeed⟩ := exists_split_of_mem_linesFrom hmem
    refine ⟨hcaptures.sorted.filter _, ?_⟩
    intro i hi
    obtain ⟨hoccurs, -⟩ := (hcaptures.mem_iff i).mp (List.mem_filter.mp hi).1
    exact ⟨hoccurs, hoccurs.nameInCode hfeed⟩
  · simp only [calls, calledOn_eq, List.map_map]
    rfl

/-- A call whose argument is a string, a character that its line leaves open, and a call below. -/
def callsAroundLiterals (string character : List Char) : List Char :=
  ['f', '(', '"'] ++ (string ++ ['"', ')', ';', '\'']) ++
    (character ++ '\n' :: ['g', '(', ')', ';'])

theorem calls_of_other_contents_callsAroundLiterals :
    Relation.ReflTransGen OtherContents (callsAroundLiterals ['x'] ['y'])
        (callsAroundLiterals ['\\', '"', '('] ['\\']) ∧
      calls default "a.c" (callsAroundLiterals ['\\', '"', '('] ['\\']) =
        calls default "a.c" (callsAroundLiterals ['x'] ['y']) ∧
      (FileFindings.ofText default "a.c"
          (callsAroundLiterals ['\\', '"', '('] ['\\'])).calls =
        (FileFindings.ofText default "a.c" (callsAroundLiterals ['x'] ['y'])).calls := by
  have hplain : ∀ {q : Quote} {c : Char}, c ∉ ['\n', '\\', q.char] → q.Contents [c] := by
    intro q c hc
    simp only [List.mem_cons, List.not_mem_nil, or_false, not_or] at hc
    exact .plain hc.1 hc.2.1 hc.2.2 .nil
  have hstring : Quote.Contents .double ['\\', '"', '('] :=
    .escape (by decide) (hplain (by decide))
  have hbelow : EndsLine ('\n' :: ['g', '(', ')', ';']) := .inr ⟨_, .inl rfl⟩
  have hfirst : OtherContents (callsAroundLiterals ['x'] ['y'])
      (callsAroundLiterals ['\\', '"', '('] ['y']) :=
    @OtherContents.replace .double [] ['f', '('] ['x'] ['\\', '"', '(']
      ['"', ')', ';', '\'', 'y'] _ (.inl rfl) (by decide) hbelow
      (.of_fits (by decide) (.inl (hplain (by decide))) (.inr ⟨_, rfl⟩)) (.inl hstring)
  have hsecond : OtherContents (callsAroundLiterals ['\\', '"', '('] ['y'])
      (callsAroundLiterals ['\\', '"', '('] ['\\']) :=
    @OtherContents.replace .single []
      ['f', '(', '"', '\\', '"', '(', '"', ')', ';'] ['y'] ['\\'] [] _ (.inl rfl)
      (by decide) hbelow (.of_fits (by decide) (.inl (hplain (by decide))) (.inl rfl))
      (.inr ⟨rfl, [], .nil, rfl⟩)
  have h := (Relation.ReflTransGen.single hfirst).tail hsecond
  obtain ⟨hcalls, hrecord, -⟩ := calls_of_other_contents default "a.c" h
  exact ⟨h, hcalls, hrecord⟩

end CallSites
