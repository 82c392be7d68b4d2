import Mathlib.Data.List.Basic
import CallSites.Report.Pretty
import CallSites.Text.Word

/-!
# Reading a report for reading

The report for people escapes nothing: names and file names stand in it as they are, and either may
look like a part of the layout. It can be read back all the same, as long as no name and no file
name breaks a line. A file name that ends like a location does no harm, because the number of a line
is read off from the end; a name such as `Summary` does none, because the heading of a part is told
by what stands below it: below a name there is always a location, which is indented, and below a
heading never.

Colours add nothing. They are laid around whole headings, names and counts, so striking out the
sequences that switch them leaves the plain report, and what is read from a painted report is what
is read from the plain one.
-/

namespace CallSites

open Text

/-! ## Striking out colours -/

/-- The sequences that switch colours: to blue, to yellow, and back. -/
def colourSequences : List (List Char) :=
  [['\x1b', '[', '3', '4', 'm'], ['\x1b', '[', '3', '3', 'm'], ['\x1b', '[', '0', 'm']]

/-- A text without the sequences that switch colours. -/
def withoutColours (text : List Char) : List Char :=
  match text with
  | [] => []
  | c :: cs =>
    match colourSequences.find? (·.isPrefixOf (c :: cs)) with
    | some sequence => withoutColours (cs.drop (sequence.length - 1))
    | none => c :: withoutColours cs
termination_by text.length
decreasing_by
  · rw [List.length_drop, List.length_cons]
    omega
  · exact Nat.lt_succ_self _

theorem withoutColours_cons {c : Char} (hc : c ≠ '\x1b') (cs : List Char) :
    withoutColours (c :: cs) = c :: withoutColours cs := by
  have hnone : colourSequences.find? (·.isPrefixOf (c :: cs)) = none := by
    have hne : ('\x1b' == c) = false := beq_false_of_ne hc.symm
    simp [colourSequences, List.isPrefixOf, hne]
  rw [withoutColours, hnone]

theorem withoutColours_append {text : List Char} (h : '\x1b' ∉ text) (rest : List Char) :
    withoutColours (text ++ rest) = text ++ withoutColours rest := by
  induction text with
  | nil => rfl
  | cons c text ih =>
    rw [List.mem_cons, not_or] at h
    rw [List.cons_append, withoutColours_cons (Ne.symm h.1), ih h.2, List.cons_append]

theorem withoutColours_colour (side : Side) (rest : List Char) :
    withoutColours (side.colour ++ rest) = withoutColours rest := by
  cases side <;>
    simp [withoutColours, colourSequences, Side.colour, List.isPrefixOf]

theorem withoutColours_plainColour (rest : List Char) :
    withoutColours (plainColour ++ rest) = withoutColours rest := by
  simp [withoutColours, colourSequences, plainColour, List.isPrefixOf]

/-- A text that ends no colour is painted as it is. -/
theorem recolour_of_not_mem (colour : List Char) {text : List Char} (h : '\x1b' ∉ text) :
    recolour colour text = text := by
  induction text with
  | nil => rw [recolour]
  | cons c text ih =>
    rw [List.mem_cons, not_or] at h
    have hplain : ¬plainColour.isPrefixOf (c :: text) := by
      simp [plainColour, List.isPrefixOf, h.1]
    rw [recolour, if_neg hplain, ih h.2]

/-! ## Parts that shed their colours -/

/-- Without its colours `painted` is `plain`, whatever stands behind it. -/
def Sheds (painted plain : String) : Prop :=
  ∀ rest, withoutColours (painted.toList ++ rest) = plain.toList ++ withoutColours rest

namespace Sheds

variable {s t s' t' : String}

theorem of_not_mem (h : '\x1b' ∉ s.toList) : Sheds s s :=
  fun rest ↦ withoutColours_append h rest

theorem append (h : Sheds s t) (h' : Sheds s' t') : Sheds (s ++ s') (t ++ t') := by
  intro rest
  rw [String.toList_append, String.toList_append, List.append_assoc, List.append_assoc, h, h']

theorem join {α : Type} {l : List α} {f g : α → String} (h : ∀ a ∈ l, Sheds (f a) (g a)) :
    Sheds (String.join (l.map f)) (String.join (l.map g)) := by
  induction l with
  | nil => exact fun rest ↦ rfl
  | cons a l ih =>
    rw [List.forall_mem_cons] at h
    rw [List.map_cons, List.map_cons, String.join_cons, String.join_cons]
    exact h.1.append (ih h.2)

theorem paint (side : Side) {text : String} (h : '\x1b' ∉ text.toList) :
    Sheds (side.paint true text) (side.paint false text) := by
  intro rest
  rw [Side.paint, if_pos rfl, Side.paint, if_neg Bool.false_ne_true, String.toList_ofList,
    recolour_of_not_mem side.colour h, List.append_assoc, List.append_assoc, withoutColours_colour,
    withoutColours_append h, withoutColours_plainColour]

end Sheds

/-! ## Legible reports -/

/-- An entry whose name is made of word characters, with at least one location, and with files whose
names neither break a line nor switch a colour. -/
structure Entry.Legible (e : Entry) : Prop where
  word : ∀ c ∈ e.name.toList, isWord c
  called : e.locations ≠ #[]
  files : ∀ l ∈ e.locations, '\n' ∉ l.file.toList ∧ '\x1b' ∉ l.file.toList

/-- A report of legible entries. -/
def Report.Legible (r : Report) : Prop :=
  ∀ e ∈ r.internal ++ r.external, e.Legible

theorem not_mem_toDigits {c : Char} (hc : c.isDigit = false) (n : Nat) :
    c ∉ Nat.toDigits 10 n := by
  intro hmem
  have hdigit := Nat.isDigit_of_mem_toDigits (by decide) (by decide) hmem
  exact Bool.false_ne_true (hc.symm.trans hdigit)

namespace Entry.Legible

variable {e : Entry}

theorem not_mem_name (h : e.Legible) {c : Char} (hc : isWord c = false) : c ∉ e.name.toList := by
  intro hmem
  exact Bool.false_ne_true (hc.symm.trans (h.word c hmem))

theorem not_mem_shown (h : e.Legible) {l : Location} (hl : l ∈ e.locations) :
    '\n' ∉ l.shown.toList ∧ '\x1b' ∉ l.shown.toList := by
  obtain ⟨hfeed, hescape⟩ := h.files l hl
  rw [Location.shown, String.toList_append, String.toList_append, Nat.toList_repr]
  simp [hfeed, hescape, not_mem_toDigits]

theorem sheds (h : e.Legible) (side : Side) :
    Sheds (e.pretty true side) (e.pretty false side) := by
  have hname : '\x1b' ∉ (e.name ++ ":").toList := by
    rw [String.toList_append, List.mem_append, not_or]
    exact ⟨h.not_mem_name (by decide), by decide⟩
  refine .append (.append (.append (.of_not_mem (by decide)) (.paint side hname))
    (.of_not_mem (by decide))) (.join fun l hl ↦ .of_not_mem ?_)
  have hshown := (h.not_mem_shown (Array.mem_toList_iff.mp hl)).2
  rw [String.toList_append, String.toList_append]
  simp [hshown]

end Entry.Legible

theorem sheds_prettySection {entries : List Entry} (h : ∀ e ∈ entries, e.Legible) (side : Side) :
    Sheds (prettySection true side entries) (prettySection false side entries) := by
  have htitle : '\x1b' ∉ side.title.toList := by cases side <;> decide
  exact .append (.append (.append (.of_not_mem (by decide)) (.paint side htitle))
    (.of_not_mem (by decide))) (.join fun e he ↦ (h e he).sheds side)

theorem sheds_prettyCount (side : Side) (count : Nat) :
    Sheds (prettyCount true side count) (prettyCount false side count) := by
  refine .append (.paint side ?_) (.of_not_mem (by decide))
  rw [String.toList_append, String.toList_append, Nat.toList_repr]
  cases side <;> simp [Side.title, not_mem_toDigits]

/-- **Without its colours the painted report is the plain one.** -/
theorem Report.Legible.withoutColours_pretty {r : Report} (h : r.Legible) :
    withoutColours (r.pretty true).toList = (r.pretty false).toList := by
  rw [Report.Legible, List.forall_mem_append] at h
  have htotal : '\x1b' ∉ (Nat.repr r.total).toList := by
    rw [Nat.toList_repr]
    exact not_mem_toDigits (by decide) _
  have hsheds : Sheds (r.pretty true) (r.pretty false) :=
    .append (.append (.append (.append (.append (.append (.append (.of_not_mem (by decide))
      (sheds_prettySection h.1 .internal)) (sheds_prettySection h.2 .external))
      (.of_not_mem (by decide))) (.of_not_mem htotal)) (.of_not_mem (by decide)))
      (sheds_prettyCount .internal _)) (sheds_prettyCount .external _)
  have hall := hsheds []
  rwa [withoutColours, List.append_nil, List.append_nil] at hall

/-! ## The plain report by lines -/

/-- Lines, each ended by a line feed. -/
def unlines (lines : List (List Char)) : List Char :=
  lines.flatMap (· ++ ['\n'])

/-- The line of a location. -/
def Location.prettyLine (l : Location) : List Char :=
  ' ' :: ' ' :: l.shown.toList

/-- The lines of an entry, with the blank line above it. -/
def Entry.prettyLines (e : Entry) : List (List Char) :=
  [] :: (e.name ++ ":").toList :: e.locations.toList.map Location.prettyLine

/-- The lines of a section, with the blank line above it. -/
def sectionLines (side : Side) (entries : List Entry) : List (List Char) :=
  [] :: side.title.toList :: entries.flatMap Entry.prettyLines

/-- The line of a count. -/
def countLine (side : Side) (count : Nat) : List Char :=
  (side.title ++ " " ++ Nat.repr count).toList

/-- The line of the number of all calls. -/
def totalLine (count : Nat) : List Char :=
  ("Total function calls: " ++ Nat.repr count).toList

/-- The lines of a plain report. -/
def Report.prettyLines (r : Report) : List (List Char) :=
  [[], "Function call locations:".toList] ++ sectionLines .internal r.internal ++
    sectionLines .external r.external ++ [[], "Summary:".toList, totalLine r.total] ++
    [countLine .internal r.internalCount] ++ [countLine .external r.externalCount]

/-- A text that consists of the given lines. -/
def Spells (text : String) (lines : List (List Char)) : Prop :=
  text.toList = unlines lines

namespace Spells

variable {s t : String} {lines more : List (List Char)}

theorem append (h : Spells s lines) (h' : Spells t more) : Spells (s ++ t) (lines ++ more) := by
  rw [Spells, String.toList_append, h, h', unlines, unlines, ← List.flatMap_append]
  rfl

theorem join {α : Type} {l : List α} {f : α → String} {g : α → List (List Char)}
    (h : ∀ a ∈ l, Spells (f a) (g a)) : Spells (String.join (l.map f)) (l.flatMap g) := by
  rw [Spells, String.toList_join, List.flatMap_map, unlines, List.flatMap_assoc]
  exact List.flatMap_congr h

/-- A line begun in one text and ended by others. -/
theorem append_line {first line feed : String} (h : Spells s lines)
    (hfirst : first.toList = unlines more ++ line.toList) (hfeed : feed.toList = ['\n']) :
    Spells (s ++ first ++ t ++ feed) (lines ++ (more ++ [(line ++ t).toList])) := by
  rw [Spells] at *
  simp only [String.toList_append, h, hfirst, hfeed]
  simp [unlines]

end Spells

theorem Entry.spells_pretty (side : Side) (e : Entry) :
    Spells (e.pretty false side) e.prettyLines := by
  have hlocation : ∀ l ∈ e.locations.toList, Spells ("  " ++ l.shown ++ "\n") [l.prettyLine] := by
    intro l _
    simp [Spells, unlines, Location.prettyLine]
  have hname : Spells ("\n" ++ side.paint false (e.name ++ ":") ++ "\n")
      [[], (e.name ++ ":").toList] := by
    simp [Spells, unlines, Side.paint]
  have hentry := hname.append (.join hlocation)
  rwa [← List.map_eq_flatMap] at hentry

theorem spells_prettySection (side : Side) (entries : List Entry) :
    Spells (prettySection false side entries) (sectionLines side entries) := by
  have htitle : Spells ("\n" ++ side.paint false side.title ++ "\n") [[], side.title.toList] := by
    simp [Spells, unlines, Side.paint]
  exact htitle.append (.join fun e _ ↦ e.spells_pretty side)

theorem spells_prettyCount (side : Side) (count : Nat) :
    Spells (prettyCount false side count) [countLine side count] := by
  rw [Spells, prettyCount, String.toList_append, unlines, List.flatMap_singleton]
  rfl

/-- **The plain report consists of its lines.** -/
theorem Report.spells_pretty (r : Report) : Spells (r.pretty false) r.prettyLines := by
  have hhead : Spells "\nFunction call locations:\n" [[], "Function call locations:".toList] := by
    rw [Spells]
    decide
  have hsummary : "\nSummary:\nTotal function calls: ".toList =
      unlines [[], "Summary:".toList] ++ "Total function calls: ".toList := by decide
  have hsections := (hhead.append (spells_prettySection .internal r.internal)).append
    (spells_prettySection .external r.external)
  exact ((hsections.append_line hsummary (by decide)).append
    (spells_prettyCount .internal _)).append (spells_prettyCount .external _)

/-! ## Reading lines back -/

/-- A run of one class and what stands behind it are told apart where the class ends. -/
theorem append_inj_of_class {α : Type} {p : α → Bool} {l m l' m' : List α} (hl : ∀ a ∈ l, p a)
    (hl' : ∀ a ∈ l', p a) (hm : ∀ a ∈ m.head?, p a = false) (hm' : ∀ a ∈ m'.head?, p a = false)
    (h : l ++ m = l' ++ m') : l = l' ∧ m = m' := by
  -- a run that is longer has a member where the other has ended
  have hnil : ∀ {run run' between behind : List α}, run' = run ++ between →
      (∀ a ∈ run', p a) → (∀ a ∈ (between ++ behind).head?, p a = false) → between = [] := by
    intro run run' between behind hrun hclass hend
    refine List.eq_nil_iff_forall_not_mem.mpr fun a ha ↦ ?_
    obtain ⟨b, between, rfl⟩ := List.exists_cons_of_ne_nil (List.ne_nil_of_mem ha)
    have hb := hclass b (by rw [hrun]; exact List.mem_append_right run List.mem_cons_self)
    exact Bool.false_ne_true ((hend b rfl).symm.trans hb)
  rcases List.append_eq_append_iff.mp h with ⟨between, hrun, hbehind⟩ | ⟨between, hrun, hbehind⟩
  · rw [hnil hrun hl' (hbehind ▸ hm), List.append_nil] at hrun
    subst hrun
    exact ⟨rfl, List.append_cancel_left h⟩
  · rw [hnil hrun hl (hbehind ▸ hm'), List.append_nil] at hrun
    subst hrun
    exact ⟨rfl, List.append_cancel_left h⟩

/-- Lines can be told from their text. -/
theorem eq_of_unlines_eq {lines lines' : List (List Char)} (hlines : ∀ l ∈ lines, '\n' ∉ l)
    (hlines' : ∀ l ∈ lines', '\n' ∉ l) (h : unlines lines = unlines lines') : lines = lines' := by
  have hclass : ∀ {l : List Char}, '\n' ∉ l → ∀ c ∈ l, c != '\n' := by
    intro l hl c hc
    rw [bne_iff_ne]
    rintro rfl
    exact hl hc
  induction lines generalizing lines' with
  | nil =>
    cases lines' with
    | nil => rfl
    | cons l' lines' => simp [unlines] at h
  | cons l lines ih =>
    cases lines' with
    | nil => simp [unlines] at h
    | cons l' lines' =>
      rw [List.forall_mem_cons] at hlines hlines'
      simp only [unlines, List.flatMap_cons, List.append_assoc] at h
      obtain ⟨rfl, hrest⟩ := append_inj_of_class (hclass hlines.1) (hclass hlines'.1) (by simp)
        (by simp) h
      rw [ih hlines.2 hlines'.2 (List.append_cancel_left hrest)]

/-- Whether a line is one of a location. -/
def isIndented (line : List Char) : Bool :=
  line.head? == some ' '

theorem Location.isIndented_prettyLine (l : Location) : isIndented l.prettyLine :=
  rfl

/-- The number of a line stands behind the last space, whatever the file is called. -/
theorem Location.eq_of_prettyLine_eq {l l' : Location} (h : l.prettyLine = l'.prettyLine) :
    l = l' := by
  have hdigits : ∀ n : Nat, ∀ c ∈ (Nat.toDigits 10 n).reverse, c.isDigit := fun n c hc ↦
    Nat.isDigit_of_mem_toDigits (by decide) (by decide) (List.mem_reverse.mp hc)
  have hstart : ": line ".toList.reverse = ' ' :: "enil :".toList := by decide
  have hshown : ∀ l : Location, l.shown.toList.reverse = (Nat.toDigits 10 l.line).reverse ++
      ' ' :: ("enil :".toList ++ l.file.toList.reverse) := by
    intro l
    rw [Location.shown, String.toList_append, String.toList_append, List.reverse_append,
      List.reverse_append, hstart, Nat.toList_repr]
    rfl
  have hreverse := congrArg List.reverse (List.cons.inj (List.cons.inj h).2).2
  rw [hshown, hshown] at hreverse
  obtain ⟨hline, hrest⟩ := append_inj_of_class (hdigits _) (hdigits _) (by simp) (by simp) hreverse
  have hfile := List.append_cancel_left (List.cons.inj hrest).2
  rw [List.reverse_inj] at hline hfile
  have hnumber := congrArg (fun cs ↦ Nat.ofDigitChars 10 cs 0) hline
  simp only [Nat.ofDigitChars_ten_toDigits] at hnumber
  obtain ⟨file, line⟩ := l
  obtain ⟨file', line'⟩ := l'
  obtain rfl : line = line' := hnumber
  obtain rfl : file = file' := String.toList_inj.mp hfile
  rfl

theorem Entry.eq_of_prettyLines_eq {e e' : Entry}
    (hname : (e.name ++ ":").toList = (e'.name ++ ":").toList)
    (hlocations : e.locations.toList.map Location.prettyLine =
      e'.locations.toList.map Location.prettyLine) : e = e' := by
  have hinj : Function.Injective Location.prettyLine := fun _ _ ↦ Location.eq_of_prettyLine_eq
  obtain ⟨name, locations⟩ := e
  obtain ⟨name', locations'⟩ := e'
  rw [String.toList_append, String.toList_append, List.append_cancel_right_eq,
    String.toList_inj] at hname
  rw [hinj.list_map.eq_iff, Array.toList_inj] at hlocations
  exact (Entry.mk.injEq ..).mpr ⟨hname, hlocations⟩

/-- What stands behind entries: a blank line, a heading, and below it a line that is not indented.
-/
def EndsEntries (lines : List (List Char)) : Prop :=
  ∃ heading next rest, lines = [] :: heading :: next :: rest ∧ isIndented next = false

/-- Where an entry could begin there is a blank line. -/
theorem head?_entries_append (entries : List Entry) {rest : List (List Char)}
    (hrest : EndsEntries rest) :
    ∀ line ∈ (entries.flatMap Entry.prettyLines ++ rest).head?, isIndented line = false := by
  obtain ⟨heading, next, rest, rfl, -⟩ := hrest
  cases entries with
  | nil => rintro line ⟨⟩; rfl
  | cons e entries => rintro line ⟨⟩; rfl

/-- A heading is not taken for a name. -/
theorem not_endsEntries_cons_append {e : Entry} (h : e.locations ≠ #[])
    (lines : List (List Char)) : ¬EndsEntries (e.prettyLines ++ lines) := by
  rintro ⟨heading, next, rest, heq, hnext⟩
  obtain ⟨l, locations, hlocations⟩ :=
    List.exists_cons_of_ne_nil (mt Array.toList_eq_nil_iff.mp h)
  rw [Entry.prettyLines, hlocations] at heq
  obtain ⟨-, hnames⟩ := List.cons.inj heq
  obtain ⟨-, hlines⟩ := List.cons.inj hnames
  rw [← (List.cons.inj hlines).1] at hnext
  exact Bool.false_ne_true (hnext.symm.trans l.isIndented_prettyLine)

/-- **Entries are read back**, as are the lines behind them. -/
theorem entries_eq_of_lines_eq {entries entries' : List Entry} {rest rest' : List (List Char)}
    (h : ∀ e ∈ entries, e.locations ≠ #[]) (h' : ∀ e ∈ entries', e.locations ≠ #[])
    (hrest : EndsEntries rest) (hrest' : EndsEntries rest')
    (heq : entries.flatMap Entry.prettyLines ++ rest =
      entries'.flatMap Entry.prettyLines ++ rest') : entries = entries' ∧ rest = rest' := by
  induction entries generalizing entries' with
  | nil =>
    cases entries' with
    | nil => exact ⟨rfl, heq⟩
    | cons e' entries' =>
      rw [List.forall_mem_cons] at h'
      rw [List.flatMap_nil, List.nil_append, List.flatMap_cons, List.append_assoc] at heq
      exact absurd (heq ▸ hrest) (not_endsEntries_cons_append h'.1 _)
  | cons e entries ih =>
    rw [List.forall_mem_cons] at h
    rw [List.flatMap_cons, List.append_assoc] at heq
    cases entries' with
    | nil =>
      rw [List.flatMap_nil, List.nil_append] at heq
      exact absurd (heq ▸ hrest') (not_endsEntries_cons_append h.1 _)
    | cons e' entries' =>
      rw [List.forall_mem_cons] at h'
      rw [List.flatMap_cons, List.append_assoc] at heq
      obtain ⟨hname, hlines⟩ := List.cons.inj (List.cons.inj heq).2
      have hindented : ∀ e : Entry, ∀ line ∈ e.locations.toList.map Location.prettyLine,
          isIndented line := by
        intro e line hline
        obtain ⟨l, -, rfl⟩ := List.mem_map.mp hline
        exact l.isIndented_prettyLine
      obtain ⟨hlocations, hbelow⟩ := append_inj_of_class (hindented e) (hindented e')
        (head?_entries_append entries hrest) (head?_entries_append entries' hrest') hlines
      obtain ⟨rfl, rfl⟩ := ih h.2 h'.2 hbelow
      exact ⟨by rw [Entry.eq_of_prettyLines_eq hname hlocations], rfl⟩

/-! ## Main result -/

theorem Entry.Legible.feed_not_mem {e : Entry} (h : e.Legible) :
    ∀ line ∈ e.prettyLines, '\n' ∉ line := by
  rw [Entry.prettyLines, List.forall_mem_cons, List.forall_mem_cons]
  refine ⟨List.not_mem_nil, ?_, fun line hline ↦ ?_⟩
  · rw [String.toList_append, List.mem_append, not_or]
    exact ⟨h.not_mem_name (by decide), by decide⟩
  · obtain ⟨l, hl, rfl⟩ := List.mem_map.mp hline
    have hshown := (h.not_mem_shown (Array.mem_toList_iff.mp hl)).1
    simp [Location.prettyLine, hshown]

theorem feed_not_mem_sectionLines {entries : List Entry} (h : ∀ e ∈ entries, e.Legible)
    (side : Side) : ∀ line ∈ sectionLines side entries, '\n' ∉ line := by
  have htitle : '\n' ∉ side.title.toList := by cases side <;> decide
  rw [sectionLines, List.forall_mem_cons, List.forall_mem_cons]
  refine ⟨List.not_mem_nil, htitle, fun line hline ↦ ?_⟩
  obtain ⟨e, he, hmem⟩ := List.mem_flatMap.mp hline
  exact (h e he).feed_not_mem line hmem

theorem feed_not_mem_countLine (side : Side) (count : Nat) : '\n' ∉ countLine side count := by
  rw [countLine, String.toList_append, String.toList_append, Nat.toList_repr]
  cases side <;> simp [Side.title, not_mem_toDigits]

theorem Report.Legible.feed_not_mem {r : Report} (h : r.Legible) :
    ∀ line ∈ r.prettyLines, '\n' ∉ line := by
  rw [Report.Legible, List.forall_mem_append] at h
  have htotal : '\n' ∉ totalLine r.total := by
    rw [totalLine, String.toList_append, Nat.toList_repr]
    simp [not_mem_toDigits]
  have hhead : ∀ line ∈ [[], "Function call locations:".toList], '\n' ∉ line := by decide
  have hsummary : ∀ line ∈ [[], "Summary:".toList, totalLine r.total], '\n' ∉ line := by
    have hword : '\n' ∉ "Summary:".toList := by decide
    simp only [List.forall_mem_cons]
    exact ⟨List.not_mem_nil, hword, htotal, nofun⟩
  simp only [Report.prettyLines, List.forall_mem_append (p := fun line ↦ '\n' ∉ line)]
  exact ⟨⟨⟨⟨⟨hhead, feed_not_mem_sectionLines h.1 .internal⟩,
    feed_not_mem_sectionLines h.2 .external⟩, hsummary⟩,
    List.forall_mem_singleton.mpr (feed_not_mem_countLine .internal _)⟩,
    List.forall_mem_singleton.mpr (feed_not_mem_countLine .external _)⟩

theorem Report.Legible.called {r : Report} (h : r.Legible) :
    (∀ e ∈ r.internal, e.locations ≠ #[]) ∧ ∀ e ∈ r.external, e.locations ≠ #[] := by
  rw [Report.Legible, List.forall_mem_append] at h
  exact ⟨fun e he ↦ (h.1 e he).called, fun e he ↦ (h.2 e he).called⟩

/-- The summary ends the external entries, even if one of them is called `Summary`. -/
theorem endsEntries_summary (count : Nat) (rest : List (List Char)) :
    EndsEntries ([[], "Summary:".toList, totalLine count] ++ rest) := by
  refine ⟨_, _, rest, rfl, ?_⟩
  rw [totalLine, String.toList_append]
  simp [isIndented]

/-- The external section ends the internal entries, whether or not it has entries itself. -/
theorem endsEntries_sectionLines (side : Side) (entries : List Entry) {rest : List (List Char)}
    (hrest : EndsEntries rest) : EndsEntries (sectionLines side entries ++ rest) := by
  obtain ⟨heading, next, rest, rfl, -⟩ := hrest
  cases entries with
  | nil => exact ⟨_, _, _, rfl, rfl⟩
  | cons e entries => exact ⟨_, _, _, rfl, rfl⟩

/-- **The plain report is read back.** -/
theorem Report.Legible.eq_of_plain_eq {r r' : Report} (h : r.Legible) (h' : r'.Legible)
    (heq : r.pretty false = r'.pretty false) :
    r.internal = r'.internal ∧ r.external = r'.external := by
  have hlines : r.prettyLines = r'.prettyLines := by
    apply eq_of_unlines_eq h.feed_not_mem h'.feed_not_mem
    rw [← r.spells_pretty, ← r'.spells_pretty, heq]
  simp only [Report.prettyLines, List.append_assoc] at hlines
  have hsections := (List.cons.inj (List.cons.inj (List.append_cancel_left hlines)).2).2
  obtain ⟨hinternal, hrest⟩ := entries_eq_of_lines_eq h.called.1 h'.called.1
    (endsEntries_sectionLines _ _ (endsEntries_summary _ _))
    (endsEntries_sectionLines _ _ (endsEntries_summary _ _)) hsections
  obtain ⟨hexternal, -⟩ := entries_eq_of_lines_eq h.called.2 h'.called.2 (endsEntries_summary _ _)
    (endsEntries_summary _ _) (List.cons.inj (List.cons.inj hrest).2).2
  exact ⟨hinternal, hexternal⟩

/-- **The report for reading tells every call.** Two legible reports have the same text, painted or
plain, exactly when they have the same internal and the same external entries: names, locations, and
the order of both. And a painted report without the sequences that switch colours is the plain one.
-/
theorem pretty_tells_calls (painted : Bool) (r r' : Report) (h : r.Legible) (h' : r'.Legible) :
    (r.pretty painted = r'.pretty painted ↔
        r.internal = r'.internal ∧ r.external = r'.external) ∧
      withoutColours (r.pretty true).toList = (r.pretty false).toList := by
  refine ⟨⟨fun heq ↦ ?_, ?_⟩, h.withoutColours_pretty⟩
  · cases painted with
    | false => exact h.eq_of_plain_eq h' heq
    | true =>
      apply h.eq_of_plain_eq h'
      rw [← String.toList_inj, ← h.withoutColours_pretty, ← h'.withoutColours_pretty, heq]
  · obtain ⟨internal, external, files, declarations⟩ := r
    obtain ⟨internal', external', files', declarations'⟩ := r'
    rintro ⟨rfl, rfl⟩
    rfl

/-- A name like a heading, called in a file with a name like a location. -/
def likeTheLayout : Report where
  external := [⟨"Summary", #[⟨"a.c: line 1", 2⟩]⟩, ⟨"f", #[⟨"b.c", 3⟩, ⟨"", 4⟩]⟩]

/-- The same names and numbers, filed otherwise. -/
def likeTheLayoutToo : Report where
  external := [⟨"Summary", #[⟨"a.c", 1⟩, ⟨"b.c", 3⟩]⟩, ⟨"f", #[⟨"", 4⟩]⟩]

theorem pretty_tells_calls_likeTheLayout :
    likeTheLayout.Legible ∧ likeTheLayoutToo.Legible ∧
      (∀ painted, likeTheLayout.pretty painted ≠ likeTheLayoutToo.pretty painted) ∧
      withoutColours (likeTheLayout.pretty true).toList = (likeTheLayout.pretty false).toList := by
  have hlegible : ∀ e ∈ likeTheLayout.external ++ likeTheLayoutToo.external, e.Legible := by
    intro e he
    have hword : ∀ e ∈ likeTheLayout.external ++ likeTheLayoutToo.external,
        e.name.toList.all isWord ∧ e.locations ≠ #[] ∧
          ∀ l ∈ e.locations.toList, '\n' ∉ l.file.toList ∧ '\x1b' ∉ l.file.toList := by
      decide
    obtain ⟨hname, hcalled, hfiles⟩ := hword e he
    exact ⟨List.all_eq_true.mp hname, hcalled, fun l hl ↦ hfiles l (Array.mem_toList_iff.mpr hl)⟩
  rw [List.forall_mem_append] at hlegible
  have h : likeTheLayout.Legible := hlegible.1
  have h' : likeTheLayoutToo.Legible := hlegible.2
  refine ⟨h, h', fun painted heq ↦ ?_, (pretty_tells_calls true _ _ h h').2⟩
  have hexternal := ((pretty_tells_calls painted _ _ h h').1.mp heq).2
  exact absurd hexternal (by decide)

end CallSites
