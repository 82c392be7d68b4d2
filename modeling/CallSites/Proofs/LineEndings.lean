import Mathlib.Data.List.Sort
import CallSites.Proofs.Lines
import CallSites.Proofs.MovedOffsets

/-!
# Texts with carriage returns

A text whose lines end in a carriage return and a line feed is another list of characters, with
other offsets, and should be read alike. Calls are: each line is read by itself, without its ending.
Declarations are read off the whole text, where a carriage return is a character like any other. It
is blank and means nothing to the pairing pass, with one exception. Behind a backslash in a literal
the next unit is taken with it, and that is then the carriage return in place of the line feed: the
literal that went on to the next line now ends with its own. So declarations agree where no literal
has a line feed behind a backslash, and need not agree elsewhere.

The comparison moves offsets. Offset `n` comes to stand at `n` plus the number of line feeds before
it, a strictly increasing map; pairs, heads and invocations of the longer text are those of the
shorter one, moved.
-/

namespace CallSites

open Text

/-! ## Adding returns -/

namespace Text

/-- `cs` with a carriage return before each line feed. -/
def withReturns (cs : List Char) : List Char :=
  cs.flatMap fun c ↦ if c = '\n' then ['\r', '\n'] else [c]

@[simp]
theorem withReturns_nil : withReturns [] = [] := rfl

@[simp]
theorem withReturns_feed (cs : List Char) :
    withReturns ('\n' :: cs) = '\r' :: '\n' :: withReturns cs := rfl

theorem withReturns_cons {c : Char} (hc : c ≠ '\n') (cs : List Char) :
    withReturns (c :: cs) = c :: withReturns cs := by
  rw [withReturns, List.flatMap_cons, if_neg hc]
  rfl

@[simp]
theorem withReturns_append (cs ds : List Char) :
    withReturns (cs ++ ds) = withReturns cs ++ withReturns ds :=
  List.flatMap_append

theorem withReturns_of_not_mem {cs : List Char} (h : '\n' ∉ cs) : withReturns cs = cs := by
  induction cs with
  | nil => rfl
  | cons c cs ih =>
    rw [List.mem_cons, not_or] at h
    rw [withReturns_cons (Ne.symm h.1), ih h.2]

/-- A class of characters that has both or neither of the two ends its runs at the same place. -/
theorem span_withReturns {p : Char → Bool} (hp : p '\r' = p '\n') (cs : List Char) :
    (withReturns cs).takeWhile p = withReturns (cs.takeWhile p) ∧
      (withReturns cs).dropWhile p = withReturns (cs.dropWhile p) := by
  induction cs with
  | nil => exact ⟨rfl, rfl⟩
  | cons c cs ih =>
    by_cases hc : c = '\n'
    · subst hc
      by_cases hfeed : p '\n'
      · simp [hp, hfeed, ih]
      · simp [hp, hfeed]
    · rw [withReturns_cons hc]
      by_cases hpc : p c
      · simp [hpc, ih, withReturns_cons hc]
      · simp [hpc, withReturns_cons hc]

theorem head?_withReturns {cs : List Char} (h : cs.head? ≠ some '\n') :
    (withReturns cs).head? = cs.head? := by
  cases cs with
  | nil => rfl
  | cons c cs =>
    have hc : c ≠ '\n' := by simpa using h
    rw [withReturns_cons hc, List.head?_cons, List.head?_cons]

/-! ### Lines -/

/-- **The lines of a text do not show how they end.** -/
theorem lines_withReturns {text : List Char} (h : '\r' ∉ text) :
    lines (withReturns text) = lines text := by
  by_cases hfeed : '\n' ∈ text
  · obtain ⟨line, rest, htext, hline⟩ := List.eq_append_cons_of_mem hfeed
    have hlt : rest.length < text.length := by
      rw [htext, List.length_append, List.length_cons]
      omega
    rw [htext, List.mem_append, List.mem_cons, not_or, not_or] at h
    have ih := lines_withReturns h.2.2
    have hstrip : stripReturn line = line := by
      rw [stripReturn, if_neg]
      intro hlast
      exact h.1 (List.mem_of_getLast? hlast)
    calc lines (withReturns text)
        = lines (line ++ '\r' :: '\n' :: withReturns rest) := by
          rw [htext, withReturns_append, withReturns_of_not_mem hline, withReturns_feed]
      _ = line :: lines rest := by rw [lines_append_return hline, ih]
      _ = lines text := by rw [htext, lines_append_feed hline, hstrip]
  · rw [withReturns_of_not_mem hfeed]
termination_by text.length
decreasing_by exact hlt

/-! ### Offsets -/

theorem feed_not_mem_utf8EncodeChar {c : Char} (hc : c ≠ '\n') :
    0x0A ∉ String.utf8EncodeChar c := by
  intro hmem
  by_cases hlt : c.toNat < 0x80
  · rw [utf8EncodeChar_of_lt hlt, List.mem_singleton] at hmem
    have hcode := congrArg UInt8.toNat hmem
    rw [UInt8.toNat_ofNat', Nat.mod_eq_of_lt (by omega)] at hcode
    exact hc (Char.toNat_inj.mp hcode.symm)
  · have hle := le_of_mem_utf8EncodeChar (by omega) hmem
    exact absurd hle (by decide)

theorem byteLength_withReturns (cs : List Char) :
    byteLength (withReturns cs) = byteLength cs + (encode cs).count 0x0A := by
  induction cs with
  | nil => rfl
  | cons c cs ih =>
    rw [encode_cons, List.count_append, byteLength_cons]
    by_cases hc : c = '\n'
    · subst hc
      have hfeed : (String.utf8EncodeChar '\n').count 0x0A = 1 := by decide
      rw [withReturns_feed, byteLength_cons, byteLength_cons, ih, hfeed]
      change 1 + (1 + _) = 1 + _ + _
      omega
    · have hnone := List.count_eq_zero.mpr (feed_not_mem_utf8EncodeChar hc)
      rw [withReturns_cons hc, byteLength_cons, ih, hnone]
      omega

/-- Where offset `n` of `text` comes to stand. -/
def movedOffset (text : List Char) (n : Nat) : Nat :=
  n + ((encode text).take n).count 0x0A

theorem strictMono_movedOffset (text : List Char) : StrictMono (movedOffset text) := by
  intro m n hlt
  have hprefix : (encode text).take m <+: (encode text).take n :=
    List.take_prefix_take_left (Nat.le_of_lt hlt)
  have hcount := hprefix.sublist.count_le 0x0A
  rw [movedOffset, movedOffset]
  omega

theorem movedOffset_length {text : List Char} {bytes more : List UInt8}
    (h : encode text = bytes ++ more) :
    movedOffset text bytes.length = bytes.length + bytes.count 0x0A := by
  rw [movedOffset, h, List.take_left]

/-- What stands before a cut tells where the cut comes to stand. -/
theorem movedOffset_byteLength (before after : List Char) :
    movedOffset (before ++ after) (byteLength before) = byteLength (withReturns before) := by
  rw [← length_encode, movedOffset_length (encode_append before after), length_encode,
    byteLength_withReturns]

/-- A byte sequence with a carriage return before each line feed. -/
def returnBytes (bytes : List UInt8) : List UInt8 :=
  bytes.flatMap fun b ↦ if b = 0x0A then [0x0D, 0x0A] else [b]

theorem returnBytes_of_not_mem {bytes : List UInt8} (h : 0x0A ∉ bytes) :
    returnBytes bytes = bytes := by
  induction bytes with
  | nil => rfl
  | cons b bytes ih =>
    rw [List.mem_cons, not_or] at h
    rw [returnBytes, List.flatMap_cons, if_neg (Ne.symm h.1), ← returnBytes, ih h.2]
    rfl

theorem returnBytes_append (bytes more : List UInt8) :
    returnBytes (bytes ++ more) = returnBytes bytes ++ returnBytes more :=
  List.flatMap_append

theorem encode_withReturns (cs : List Char) :
    encode (withReturns cs) = returnBytes (encode cs) := by
  induction cs with
  | nil => rfl
  | cons c cs ih =>
    rw [encode_cons, returnBytes_append, ← ih]
    by_cases hc : c = '\n'
    · subst hc
      rfl
    · rw [returnBytes_of_not_mem (feed_not_mem_utf8EncodeChar hc), withReturns_cons hc, encode_cons]

end Text

namespace Pairing

/-! ## Pairs -/

variable {φ : Nat → Nat} {s t : State}

/-- A plain unit that no backslash takes is only counted. -/
theorem State.step_plain (h : s.mode.isEscaped = false) (width : Nat) :
    s.step .plain width = { s with offset := s.offset + width } := by
  cases s with
  | mk offset mode waiting pairs =>
    cases mode with
    | code => rfl
    | literal q => rfl
    | escaped q => exact absurd h.symm Bool.false_ne_true

theorem State.Moved.step_feed (h : State.Moved φ s t) (hmode : s.mode.isEscaped = false)
    (hφ : φ (s.offset + 1) = φ s.offset + 2) :
    State.Moved φ (s.step .lineEnd 1) ((t.step .plain 1).step .lineEnd 1) := by
  rw [State.step_plain (h.mode ▸ hmode)]
  constructor
  · rw [State.step_offset, State.step_offset, hφ, h.offset]
  · rw [State.step_mode, State.step_mode, h.mode]
  · simp only [State.step, h.mode]
    split <;> exact h.waiting
  · simp only [State.step, h.mode]
    split <;> exact h.pairs

/-- **The two passes keep in step**, as long as no backslash takes a line feed. -/
theorem moved_run {text : List Char} (h : LiteralsEndWithLines text) {units more : List UInt8}
    (htext : encode text = units ++ more) :
    State.Moved (movedOffset text) (run .bytes units) (run .bytes (returnBytes units)) := by
  induction units using List.reverseRecOn generalizing more with
  | nil => exact ⟨rfl, rfl, rfl, rfl⟩
  | append_singleton units u ih =>
    have hnext := movedOffset_length htext
    rw [List.append_assoc, List.singleton_append] at htext
    have hmoved := ih htext
    have hhere := movedOffset_length htext
    rw [List.length_append, List.length_singleton, List.count_append] at hnext
    rw [run_concat, returnBytes_append]
    by_cases hu : u = 0x0A
    · subst hu
      rw [run_append]
      apply hmoved.step_feed (h.isEscaped_run htext)
      rw [offset_run_bytes, hnext, hhere, List.count_singleton_self]
      omega
    · have hnone : 0x0A ∉ [u] := fun hmem ↦ hu (List.mem_singleton.mp hmem).symm
      rw [returnBytes_of_not_mem hnone, run_concat]
      apply hmoved.step
      rw [offset_run_bytes]
      change movedOffset text (units.length + 1) = movedOffset text units.length + 1
      rw [hnext, hhere, List.count_eq_zero.mpr hnone]
      omega

end Pairing

/-- The pairs of the longer text are those of the shorter one, moved. -/
theorem pairs_withReturns {text : List Char} (h : LiteralsEndWithLines text) :
    pairs (withReturns text) =
      (pairs text).map fun p ↦ (movedOffset text p.1, movedOffset text p.2) := by
  have hmoved := Pairing.moved_run h (List.append_nil _).symm
  rw [← encode_withReturns] at hmoved
  exact hmoved.pairs

/-! ## Heads -/

theorem skipBlanks_withReturns (cs : List Char) :
    skipBlanks (withReturns cs) = withReturns (skipBlanks cs) :=
  (span_withReturns (by decide) cs).2

/-- What follows the blanks is no line feed, so it is the same character. -/
theorem head?_skipBlanks_withReturns (cs : List Char) :
    (skipBlanks (withReturns cs)).head? = (skipBlanks cs).head? := by
  rw [skipBlanks_withReturns, head?_withReturns]
  intro hhead
  have hblank := List.head?_dropWhile_not isBlank cs
  rw [← skipBlanks, hhead] at hblank
  exact absurd hblank (by decide)

theorem takeWhile_isBlank_withReturns (cs : List Char) :
    (withReturns cs).takeWhile isBlank = withReturns (cs.takeWhile isBlank) :=
  (span_withReturns (by decide) cs).1

theorem isWord_head?_withReturns {cs : List Char} (h : ∀ c ∈ cs.head?, isWord c = false) :
    ∀ c ∈ (withReturns cs).head?, isWord c = false := by
  cases cs with
  | nil => exact h
  | cons d cs =>
    by_cases hd : d = '\n'
    · subst hd
      rintro c ⟨⟩
      decide
    · rw [withReturns_cons hd]
      exact h

/-- Where the end of the blanks behind a name comes to stand. -/
theorem movedOffset_behind_blanks (before name behind : List Char) :
    movedOffset (before ++ (name ++ behind))
        (byteLength before + byteLength name + byteLength (behind.takeWhile isBlank)) =
      byteLength (withReturns before) + byteLength (withReturns name) +
        byteLength (withReturns (behind.takeWhile isBlank)) := by
  have hcut := movedOffset_byteLength (before ++ name ++ behind.takeWhile isBlank)
    (behind.dropWhile isBlank)
  rw [List.append_assoc, List.takeWhile_append_dropWhile, List.append_assoc] at hcut
  simpa only [withReturns_append, byteLength_append] using hcut

/-- **The heads of the longer text are those of the shorter one, moved**, from any cut on. -/
theorem headsFrom_withReturns (text before cs : List Char) (htext : text = before ++ cs) :
    headsFrom (byteLength (withReturns before)) (withReturns cs) =
      (headsFrom (byteLength before) cs).map (Head.move (movedOffset text)) := by
  match cs with
  | [] => simp [headsFrom]
  | c :: cs =>
    by_cases hc : isWord c
    · obtain ⟨w, behind, hsplit, hw, hbehind⟩ := exists_name_append hc cs
      have hlt : behind.length < (c :: cs).length := by
        rw [hsplit, List.length_append, List.length_cons]
        omega
      have hname : withReturns (c :: w) = c :: w :=
        withReturns_of_not_mem fun hmem ↦ absurd (hw _ hmem) (by decide)
      rw [hsplit] at htext ⊢
      have ih := headsFrom_withReturns text (before ++ c :: w) behind
        (htext.trans (List.append_assoc _ _ _).symm)
      rw [withReturns_append, hname, byteLength_append, byteLength_append] at ih
      rw [withReturns_append, hname, headsFrom_name (List.cons_ne_nil c w) hw hbehind,
        headsFrom_name (List.cons_ne_nil c w) hw (isWord_head?_withReturns hbehind), ih,
        head?_skipBlanks_withReturns, takeWhile_isBlank_withReturns, List.map_append]
      congr 1
      -- the offsets of the head are lengths of what stands before them
      have hstart : movedOffset text (byteLength before) = byteLength (withReturns before) := by
        rw [htext, movedOffset_byteLength]
      have hlparen := movedOffset_behind_blanks before (c :: w) behind
      rw [← htext, hname] at hlparen
      split
      · rw [List.map_singleton, Head.move, hstart, hlparen]
      · rfl
    · rw [Bool.not_eq_true] at hc
      have ih := headsFrom_withReturns text (before ++ [c]) cs
        (by rw [htext, List.append_assoc, List.singleton_append])
      rw [byteLength_append, withReturns_append, byteLength_append] at ih
      rw [headsFrom_cons hc]
      by_cases hfeed : c = '\n'
      · subst hfeed
        rw [withReturns_feed, headsFrom_cons (by decide), headsFrom_cons (by decide)]
        exact ih
      · rw [withReturns_cons hfeed, headsFrom_cons hc]
        rw [withReturns_cons hfeed] at ih
        exact ih
termination_by cs.length
decreasing_by
  · exact hlt
  · exact Nat.lt_succ_self _

/-! ## Invocations -/

section Moved

variable {text : List Char}

theorem invocations_withReturns (h : LiteralsEndWithLines text) :
    (Index.ofText (withReturns text)).invocations =
      (Index.ofText text).invocations.map (Invocation.move (strictMono_movedOffset text)) := by
  have hheads : heads (withReturns text) = (heads text).map (Head.move (movedOffset text)) :=
    headsFrom_withReturns text [] text rfl
  simp only [Index.ofText]
  rw [hheads, filterMap_complete?_map_move _ (pairs_withReturns h)]

theorem followedBy_withReturns {i : Invocation} (hi : i.Occurs text) (mark : Char) :
    (Index.ofText (withReturns text)).followedBy (i.move (strictMono_movedOffset text)) mark =
      (Index.ofText text).followedBy i mark := by
  obtain ⟨before, after, htext, hlen⟩ := exists_split_of_mem_pairs hi.mem_pairs
  have htext' : withReturns text = withReturns before ++ ')' :: withReturns after := by
    rw [htext, withReturns_append, withReturns_cons (by decide)]
  have hlen' : byteLength (withReturns before) = movedOffset text i.rparen := by
    rw [htext, ← hlen, movedOffset_byteLength]
  exact followedBy_move _ htext hlen htext' hlen' (head?_skipBlanks_withReturns after) mark

theorem moved_ofText_withReturns (h : LiteralsEndWithLines text) :
    Index.Moved (strictMono_movedOffset text) (Index.ofText text)
      (Index.ofText (withReturns text)) where
  invocations_eq := invocations_withReturns h
  followedBy_eq _ hi := followedBy_withReturns (mem_invocations.mp hi)

theorem mem_declared_withReturns (h : LiteralsEndWithLines text) {keywords : Keywords}
    {name : String} :
    name ∈ declared keywords (withReturns text) ↔ name ∈ declared keywords text := by
  rw [mem_declared, mem_declared, (moved_ofText_withReturns h).exists_mem_definitionsFrom_iff
    (Index.wellFormed_ofText _) (Index.wellFormed_ofText _)]

end Moved

/-! ## Main result -/

/-- A set of names is determined by its members. -/
theorem NameSet.eq_of_mem_iff {s t : NameSet} (h : ∀ n, n ∈ s ↔ n ∈ t) : s = t := by
  have htoList : s.toList = t.toList := s.sorted.eq_of_mem_iff t.sorted h
  cases s
  cases t
  dsimp only at htoList
  subst htoList
  rfl

/-- **How lines end does not show**, in the calls of any text without carriage returns, and in its
declarations too if no backslash in a literal takes a line feed with it. -/
theorem ofText_withReturns (keywords : Keywords) (file : String) (text : List Char)
    (h : '\r' ∉ text) :
    (FileFindings.ofText keywords file (withReturns text)).calls =
        (FileFindings.ofText keywords file text).calls ∧
      (LiteralsEndWithLines text →
        FileFindings.ofText keywords file (withReturns text) =
          FileFindings.ofText keywords file text) := by
  have hcalls : calls keywords file (withReturns text) = calls keywords file text := by
    rw [calls, calls, lines_withReturns h]
  constructor
  · rw [FileFindings.ofText, FileFindings.ofText, hcalls]
  · intro hliterals
    have hdeclared : declared keywords (withReturns text) = declared keywords text :=
      NameSet.eq_of_mem_iff fun _ ↦ mem_declared_withReturns hliterals
    rw [FileFindings.ofText, FileFindings.ofText, hcalls, hdeclared]

/-- A definition over three lines, behind a literal that its own line ends. -/
def definitionAcrossLines : List Char :=
  ['\'', 'a', '\n', 'f', '(', '\n', ')', '\n', '\x7b']

theorem ofText_withReturns_definitionAcrossLines :
    '\r' ∉ definitionAcrossLines ∧ LiteralsEndWithLines definitionAcrossLines ∧
      FileFindings.ofText default "a.c" (withReturns definitionAcrossLines) =
        FileFindings.ofText default "a.c" definitionAcrossLines := by
  have h : '\r' ∉ definitionAcrossLines := by decide
  have hliterals : LiteralsEndWithLines definitionAcrossLines := by decide
  exact ⟨h, hliterals, (ofText_withReturns default "a.c" definitionAcrossLines h).2 hliterals⟩

/-- A definition behind a literal that a backslash takes to the second line. -/
def literalAcrossLines : List Char :=
  ['"', '\\', '\n', '"', 'f', '(', ')', '\x7b']

/-- With a carriage return the literal ends on the first line, the quote on the second opens
another, and the definition is lost in it. -/
theorem declarations_ne_withReturns :
    '\r' ∉ literalAcrossLines ∧
      "f" ∈ (FileFindings.ofText default "a.c" literalAcrossLines).declarations ∧
      "f" ∉ (FileFindings.ofText default "a.c" (withReturns literalAcrossLines)).declarations := by
  refine ⟨by decide, ?_, ?_⟩
  · have hpairs : pairs literalAcrossLines = [(5, 6)] := by decide
    have hoccurs : Invocation.Occurs ⟨"f", 4, 5, 7, by decide, by decide⟩ literalAcrossLines := by
      refine ⟨⟨['f'], 4, 5⟩, ⟨['"', '\\', '\n', '"'], ['f', '(', ')', '\x7b'], rfl, ?_, [],
        [')', '\x7b'], rfl, List.cons_ne_nil _ _, ?_, ?_, nofun, rfl, rfl⟩, rfl, rfl, rfl, ?_⟩
      · rintro c ⟨⟩
        decide
      · intro c hc
        rw [List.mem_singleton.mp hc]
        decide
      · rintro c ⟨⟩
        decide
      · rw [getElem?_partners, hpairs]
        exact List.mem_singleton_self _
    refine mem_declared.mpr ⟨by decide, _, (Index.wellFormed_ofText _).mem_definitionsFrom.mpr
      ⟨mem_invocations.mpr hoccurs, Nat.zero_le _, by decide, ?_⟩, rfl⟩
    intro y hy _ _ hinside
    have hmem := (mem_invocations.mp hy).mem_pairs
    rw [hpairs, List.mem_singleton, Prod.mk.injEq] at hmem
    rw [hmem.1] at hinside
    exact absurd hinside.1 (by decide)
  · intro hmem
    obtain ⟨-, x, hx, -⟩ := mem_declared.mp hmem
    rw [(Index.wellFormed_ofText _).mem_definitionsFrom] at hx
    have hpair := (mem_invocations.mp hx.1).mem_pairs
    have hpairs : pairs (withReturns literalAcrossLines) = [] := by decide
    rw [hpairs] at hpair
    exact List.not_mem_nil hpair

end CallSites
