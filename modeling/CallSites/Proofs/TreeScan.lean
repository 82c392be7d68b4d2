import CallSites.TreeScan
import CallSites.Proofs.Report

/-!
# What a scan reads

A scan goes through the items of a walk. Either every item is a source file that can be read, and
the findings are those of their texts in order, or there is a first item that is not, and the scan
ends with what is wrong with it. What comes behind that item does not matter, and neither does what
stands in the files before it.
-/

namespace CallSites

variable {fs : FileSystem} {settings : Settings} {root : String}

/-! ## Up to the first failure -/

section UpToFailure

variable {α β ε : Type} {f : α → Except ε β} {l : List α}

theorem upToFailure_of_forall₂ {bs : List β} (h : List.Forall₂ (fun a b ↦ f a = .ok b) l bs) :
    upToFailure f l = (bs, none) := by
  induction h with
  | nil => rfl
  | cons hab _ ih => rw [upToFailure, hab, ih]

theorem exists_upToFailure_of_split {before after : List α} {a : α} {e : ε}
    (hbefore : ∀ x ∈ before, ∃ b, f x = .ok b) (ha : f a = .error e) :
    ∃ bs, upToFailure f (before ++ a :: after) = (bs, some e) := by
  induction before with
  | nil => exact ⟨[], by rw [List.nil_append, upToFailure, ha]⟩
  | cons x before ih =>
    obtain ⟨b, hb⟩ := hbefore x List.mem_cons_self
    obtain ⟨bs, hbs⟩ := ih fun y hy ↦ hbefore y (List.mem_cons_of_mem _ hy)
    exact ⟨b :: bs, by rw [List.cons_append, upToFailure, hb, hbs]⟩

end UpToFailure

/-! ## Items of a walk -/

/-- An item of a walk that is a source file and can be read, with its path and its text. -/
def WalkItem.ReadsAs (fs : FileSystem) (item : WalkItem) (f : String × List Char) : Prop :=
  item = .source f.1 ∧ ∃ bytes, fs.read f.1 = .ok bytes ∧ f.2 = Text.decode bytes

/-- An item of a walk that ends the scan of a root. -/
inductive WalkItem.Stops (fs : FileSystem) (root : String) : WalkItem → ScanError → Prop
  | fault (f : WalkFault) : Stops fs root (.fault f) (.walk root f)
  | unreadable {path : String} {e : OsError} (h : fs.read path = .error e) :
    Stops fs root (.source path) (.read path e)

/-- The first item that cannot be scanned is one of error `e`. -/
def FirstStop (fs : FileSystem) (root : String) (items : List WalkItem) (e : ScanError) : Prop :=
  ∃ before item after, items = before ++ item :: after ∧
    (∀ i ∈ before, ∃ f, i.ReadsAs fs f) ∧ item.Stops fs root e

theorem WalkItem.ReadsAs.scanItem {item : WalkItem} {f : String × List Char}
    (h : item.ReadsAs fs f) :
    scanItem fs settings root item = .ok (.ofText settings.keywords f.1 f.2) := by
  obtain ⟨rfl, bytes, hread, htext⟩ := h
  rw [CallSites.scanItem, hread, htext]

theorem WalkItem.Stops.scanItem {item : WalkItem} {e : ScanError} (h : item.Stops fs root e) :
    scanItem fs settings root item = .error e := by
  cases h with
  | fault f => rfl
  | unreadable hread => rw [CallSites.scanItem, hread]

/-- Every item can be scanned, or ends the scan. -/
theorem WalkItem.readsAs_or_stops (fs : FileSystem) (root : String) (item : WalkItem) :
    (∃ f, item.ReadsAs fs f) ∨ ∃ e, item.Stops fs root e := by
  cases item with
  | fault f => exact .inr ⟨_, .fault f⟩
  | source path =>
    cases hread : fs.read path with
    | error e => exact .inr ⟨_, .unreadable hread⟩
    | ok bytes => exact .inl ⟨(path, Text.decode bytes), rfl, bytes, hread, rfl⟩

/-- A walk can be scanned from end to end, or has a first item that cannot. -/
theorem readsAs_or_firstStop (fs : FileSystem) (root : String) (items : List WalkItem) :
    (∃ files, List.Forall₂ (WalkItem.ReadsAs fs) items files) ∨ ∃ e, FirstStop fs root items e := by
  induction items with
  | nil => exact .inl ⟨[], .nil⟩
  | cons item items ih =>
    rcases item.readsAs_or_stops fs root with ⟨f, hf⟩ | ⟨e, he⟩
    · rcases ih with ⟨files, hfiles⟩ | ⟨e, before, stop, after, rfl, hbefore, hstop⟩
      · exact .inl ⟨f :: files, .cons hf hfiles⟩
      · refine .inr ⟨e, item :: before, stop, after, rfl, ?_, hstop⟩
        rintro i (_ | ⟨_, hi⟩)
        · exact ⟨f, hf⟩
        · exact hbefore i hi
    · exact .inr ⟨e, [], item, items, rfl, by simp, he⟩

/-! ## Scans -/

/-- A walk of readable sources is scanned as their texts, in order. -/
theorem scanFiles_of_readsAs {files : List (String × List Char)}
    (h : List.Forall₂ (WalkItem.ReadsAs fs) (walk fs settings root) files) :
    scanFiles fs settings root =
      (files.map fun f ↦ .ofText settings.keywords f.1 f.2, none) := by
  apply upToFailure_of_forall₂
  rw [List.forall₂_map_right_iff]
  exact h.imp fun _ _ hf ↦ hf.scanItem

/-- A scan ends with the first item that cannot be scanned. -/
theorem exists_scanFiles_of_firstStop {e : ScanError}
    (h : FirstStop fs root (walk fs settings root) e) :
    ∃ files, scanFiles fs settings root = (files, some e) := by
  obtain ⟨before, item, after, hwalk, hbefore, hstop⟩ := h
  rw [scanFiles, hwalk]
  refine exists_upToFailure_of_split (fun i hi ↦ ?_) hstop.scanItem
  obtain ⟨f, hf⟩ := hbefore i hi
  exact ⟨_, hf.scanItem⟩

end CallSites
