import Mathlib.Data.List.TakeWhile
import CallSites.Settings.Source

/-!
# What settings say

What settings mean to a scan, whether they can be used and whether they can be loaded, each said in
terms of the lists and texts themselves. An ending is what follows the leading dots of an extension.
Settings can be used if there are endings to read, none of them empty, and if no directory to pass
by is more than a name. They can be loaded if a file can be read, is text and holds a document.

Where something fails, the failure is a relation with a rule for each stage that asks for the
earlier ones, so that a rule is about the first thing that is wrong.
-/

namespace CallSites.Settings

/-! ## Directories and endings -/

section Choice

variable {s : Settings} {name extension : String}

theorem ignores_iff : s.ignores name ↔ name ∈ s.ignoredDirs :=
  List.contains_iff_mem

/-- What is left of an extension without its leading dots. -/
theorem bareExtension_eq_iff {bare : List Char} :
    bareExtension extension = bare ↔
      ∃ dots, extension.toList = List.replicate dots '.' ++ bare ∧ bare.head? ≠ some '.' := by
  rw [bareExtension]
  constructor
  · rintro rfl
    have hdots : ∀ c ∈ extension.toList.takeWhile (· == '.'), c = '.' := by
      intro c hc
      exact eq_of_beq (List.all_eq_true.mp List.all_takeWhile c hc)
    refine ⟨(extension.toList.takeWhile (· == '.')).length, ?_, fun hhead ↦ ?_⟩
    · rw [← List.eq_replicate_iff.mpr ⟨rfl, hdots⟩, List.takeWhile_append_dropWhile]
    · have hnot := List.head?_dropWhile_not (· == '.') extension.toList
      rw [hhead] at hnot
      exact absurd hnot (by decide)
  · rintro ⟨dots, htext, hhead⟩
    rw [htext, List.dropWhile_append_of_pos fun c hc ↦ beq_iff_eq.mpr (List.eq_of_mem_replicate hc)]
    cases bare with
    | nil => rfl
    | cons c bare => exact List.dropWhile_cons_of_neg fun hc ↦ hhead (congrArg some (eq_of_beq hc))

/-- A file is read if its name ends in a dot and one of the endings. -/
theorem reads_iff : s.reads name ↔ ∃ extension ∈ s.extensions, ∃ dots bare,
    extension.toList = List.replicate dots '.' ++ bare ∧ bare.head? ≠ some '.' ∧
      '.' :: bare <:+ name.toList := by
  rw [reads, List.any_eq_true]
  refine exists_congr fun extension ↦ and_congr_right fun _ ↦ ?_
  rw [List.isSuffixOf_iff_suffix]
  constructor
  · intro hending
    obtain ⟨dots, htext, hhead⟩ := bareExtension_eq_iff.mp rfl
    exact ⟨dots, _, htext, hhead, hending⟩
  · rintro ⟨dots, bare, htext, hhead, hending⟩
    rwa [bareExtension_eq_iff.mpr ⟨dots, htext, hhead⟩]

end Choice

/-! ## Settings that can be used -/

/-- An extension that is not made of dots alone. -/
def NamesEnding (extension : String) : Prop :=
  ∃ c ∈ extension.toList, c ≠ '.'

/-- A text that can be the name of a directory. -/
def NamesDirectory (name : String) : Prop :=
  name ≠ "" ∧ '/' ∉ name.toList ∧ '\\' ∉ name.toList

/-- Settings that a scan can use. -/
structure Usable (s : Settings) : Prop where
  reads : s.extensions ≠ []
  endings : ∀ e ∈ s.extensions, NamesEnding e
  directories : ∀ n ∈ s.ignoredDirs, NamesDirectory n

/-- The first thing that keeps a scan from using settings. -/
inductive FirstFault (s : Settings) : SettingsFault → Prop
  | noExtension (hnone : s.extensions = []) : FirstFault s .noExtension
  | emptyExtension {before after : List String} {e : String}
    (hsplit : s.extensions = before ++ e :: after) (hbefore : ∀ x ∈ before, NamesEnding x)
    (hempty : ¬NamesEnding e) : FirstFault s (.emptyExtension e)
  | notADirectoryName {before after : List String} {n : String} (hreads : s.extensions ≠ [])
    (hendings : ∀ e ∈ s.extensions, NamesEnding e)
    (hsplit : s.ignoredDirs = before ++ n :: after) (hbefore : ∀ x ∈ before, NamesDirectory x)
    (hbad : ¬NamesDirectory n) : FirstFault s (.notADirectoryName n)

section Find

variable {p : String → Bool} {P : String → Prop} {l : List String}

theorem find?_eq_none_iff_forall (hp : ∀ x, p x ↔ ¬P x) : l.find? p = none ↔ ∀ x ∈ l, P x := by
  simp only [List.find?_eq_none, hp, not_not]

/-- What is found is the first member without a property, if the test is for not having it. -/
theorem find?_eq_some_iff_first (hp : ∀ x, p x ↔ ¬P x) {a : String} :
    l.find? p = some a ↔
      ∃ before after, l = before ++ a :: after ∧ (∀ x ∈ before, P x) ∧ ¬P a := by
  simp only [List.find?_eq_some_iff_append, Bool.not_eq_true', Bool.eq_false_iff, ne_eq, hp,
    not_not]
  constructor
  · rintro ⟨ha, before, after, hsplit, hbefore⟩
    exact ⟨before, after, hsplit, hbefore, ha⟩
  · rintro ⟨before, after, hsplit, hbefore, ha⟩
    exact ⟨ha, before, after, hsplit, hbefore⟩

end Find

theorem isEmpty_bareExtension_iff (e : String) :
    decide (bareExtension e = []) ↔ ¬NamesEnding e := by
  simp [bareExtension, NamesEnding, List.dropWhile_eq_nil_iff]

theorem not_isDirectoryName_iff (n : String) : (!isDirectoryName n) ↔ ¬NamesDirectory n := by
  rw [Bool.not_eq_true', Bool.eq_false_iff, ne_eq, not_iff_not]
  simp only [isDirectoryName, NamesDirectory, Bool.and_eq_true, bne_iff_ne, Bool.not_eq_true',
    List.any_eq_false, Bool.or_eq_true, beq_iff_eq, not_or]
  refine and_congr_right fun _ ↦ ⟨fun h ↦ ?_, fun h c hc ↦ ?_⟩
  · exact ⟨fun hslash ↦ (h _ hslash).1 rfl, fun hslash ↦ (h _ hslash).2 rfl⟩
  · exact ⟨fun heq ↦ h.1 (heq ▸ hc), fun heq ↦ h.2 (heq ▸ hc)⟩

variable {s : Settings}

theorem Usable.fault?_eq (h : s.Usable) : s.fault? = none := by
  rw [fault?, if_neg h.reads, (find?_eq_none_iff_forall isEmpty_bareExtension_iff).mpr h.endings,
    (find?_eq_none_iff_forall not_isDirectoryName_iff).mpr h.directories]
  rfl

/-- **Settings are refused for their first fault.** -/
theorem FirstFault.fault?_eq {f : SettingsFault} (h : s.FirstFault f) : s.fault? = some f := by
  cases h with
  | noExtension hnone => rw [fault?, if_pos hnone]
  | emptyExtension hsplit hbefore hempty =>
    have hreads : s.extensions ≠ [] := by simp [hsplit]
    rw [fault?, if_neg hreads,
      (find?_eq_some_iff_first isEmpty_bareExtension_iff).mpr ⟨_, _, hsplit, hbefore, hempty⟩]
  | notADirectoryName hreads hendings hsplit hbefore hbad =>
    rw [fault?, if_neg hreads, (find?_eq_none_iff_forall isEmpty_bareExtension_iff).mpr hendings,
      (find?_eq_some_iff_first not_isDirectoryName_iff).mpr ⟨_, _, hsplit, hbefore, hbad⟩]
    rfl

section Files

variable {fs : FileSystem} {path : String}

/-- The file at a path holds a document of the given settings. -/
def HeldAt (fs : FileSystem) (path : String) (s : Settings) : Prop :=
  ∃ bytes text, fs.read path = .ok bytes ∧ Text.decode? bytes = some text ∧
    Settings.parse text = .ok s

/-- Why the file at a path holds no settings: it cannot be read, it is no text, or its text is no
document of settings. -/
inductive Unloadable (fs : FileSystem) (path : String) : LoadError → Prop
  | unreadable {e : OsError} (hread : fs.read path = .error e) :
    Unloadable fs path (.unreadable path e)
  | notText {bytes : List UInt8} (hread : fs.read path = .ok bytes)
    (htext : Text.decode? bytes = none) : Unloadable fs path (.notText path)
  | document {bytes : List UInt8} {text : List Char} {e : SettingsError}
    (hread : fs.read path = .ok bytes) (htext : Text.decode? bytes = some text)
    (hparse : Settings.parse text = .error e) : Unloadable fs path (.document e)

theorem HeldAt.load_eq (h : HeldAt fs path s) : load fs path = .ok s := by
  obtain ⟨bytes, text, hread, htext, hparse⟩ := h
  simp only [load, hread, htext, hparse]

/-- **Loading fails for the first reason there is.** -/
theorem Unloadable.load_eq {e : LoadError} (h : Unloadable fs path e) :
    load fs path = .error e := by
  cases h with
  | unreadable hread => simp only [load, hread]
  | notText hread htext => simp only [load, hread, htext]
  | document hread htext hparse => simp only [load, hread, htext, hparse]

end Files

end CallSites.Settings
