import Mathlib.Data.List.Forall2
import Mathlib.Data.List.Nodup
import CallSites.Settings.Document

/-!
# What a document of settings says

Whether a mapping describes settings is decided member by member, and reading stops at the first
member that is out of order. Which member that is depends on their order, but whether there is one
does not: a mapping is accepted exactly when all its keys are names of lists, no name comes twice
and every value is left out or a sequence of scalars. The settings are then what the members say,
each about its own list, and lists without a member keep their defaults. So the members of an
accepted document may be reordered at will.

The text behind a document is looked at only once, for being blank. All else is about its nodes,
among which there are no aliases here, so that each node stands for itself.
-/

namespace CallSites

open Yaml

/-! ## Nodes -/

namespace Yaml.Node

variable {α : Type}

mutual

/-- Whether no alias stands in a node. -/
def isAliasFree : Node α → Bool
  | .scalar .. => true
  | .sequence _ items => areAliasFree items
  | .mapping _ members => pairsAliasFree members
  | .reference .. => false

/-- Whether no alias stands in some nodes. -/
def areAliasFree : List (Node α) → Bool
  | [] => true
  | item :: items => isAliasFree item && areAliasFree items

/-- Whether no alias stands in the members of a mapping. -/
def pairsAliasFree : List (Node α × Node α) → Bool
  | [] => true
  | (key, value) :: members => isAliasFree key && isAliasFree value && pairsAliasFree members

end

mutual

/-- A node without its place and its properties. -/
def bare : Node α → Node α
  | .scalar _ style text => .scalar {} style text
  | .sequence _ items => .sequence {} (bareItems items)
  | .mapping _ members => .mapping {} (bareMembers members)
  | .reference _ target => .reference {} target

/-- Nodes without their places and properties. -/
def bareItems : List (Node α) → List (Node α)
  | [] => []
  | item :: items => bare item :: bareItems items

/-- The members of a mapping without places and properties. -/
def bareMembers : List (Node α × Node α) → List (Node α × Node α)
  | [] => []
  | (key, value) :: members => (bare key, bare value) :: bareMembers members

end

theorem isAliasFree_of_mem {items : List (Node α)} (h : areAliasFree items) :
    ∀ item ∈ items, item.isAliasFree := by
  induction items with
  | nil => exact nofun
  | cons item items ih =>
    rw [areAliasFree, Bool.and_eq_true] at h
    exact List.forall_mem_cons.mpr ⟨h.1, ih h.2⟩

theorem bareItems_eq_map (items : List (Node α)) : bareItems items = items.map bare := by
  induction items with
  | nil => rfl
  | cons item items ih => rw [bareItems, ih, List.map_cons]

theorem bareMembers_eq_map (members : List (Node α × Node α)) :
    bareMembers members = members.map fun m ↦ (m.1.bare, m.2.bare) := by
  induction members with
  | nil => rfl
  | cons m members ih => rw [bareMembers, ih, List.map_cons]

/-- A scalar with the given text, however it is written. -/
def HasText (node : Node α) (text : String) : Prop :=
  ∃ p style, node = .scalar p style text

/-- The texts that a value lists: none if it is left out, else those of the scalars in it. -/
inductive Lists : Node α → List String → Prop
  | absent (p : Properties) : Lists (.scalar p .plain "") []
  | sequence (p : Properties) {items : List (Node α)} {texts : List String}
    (h : List.Forall₂ HasText items texts) : Lists (.sequence p items) texts

variable {node : Node α} {text text' : String} {texts texts' : List String}

theorem HasText.unique (h : node.HasText text) (h' : node.HasText text') : text = text' := by
  obtain ⟨p, style, rfl⟩ := h
  obtain ⟨p', style', heq⟩ := h'
  exact (scalar.inj heq).2.2

theorem Lists.unique (h : node.Lists texts) (h' : node.Lists texts') : texts = texts' := by
  have hright : Relator.RightUnique (HasText (α := α)) := fun _ _ _ ↦ HasText.unique
  cases h with
  | absent => cases h'; rfl
  | sequence p h =>
    cases h' with
    | sequence p h' => exact List.right_unique_forall₂' hright h h'

/-- The place and the properties of a node do not count. -/
theorem hasText_bare_iff : node.bare.HasText text ↔ node.HasText text := by
  cases node <;> simp [bare, HasText]

theorem lists_bare_iff : node.bare.Lists texts ↔ node.Lists texts := by
  have hitems : ∀ items : List (Node α),
      List.Forall₂ HasText (bareItems items) texts ↔ List.Forall₂ HasText items texts := by
    intro items
    rw [bareItems_eq_map, List.forall₂_map_left_iff]
    simp only [hasText_bare_iff]
  cases node with
  | scalar p style s =>
    constructor
    · rintro ⟨⟩
      exact .absent p
    · rintro ⟨⟩
      exact .absent {}
  | sequence p items =>
    constructor
    · rintro (_ | ⟨_, h⟩)
      exact .sequence p ((hitems items).mp h)
    · rintro (_ | ⟨_, h⟩)
      exact .sequence {} ((hitems items).mpr h)
  | mapping p members => exact ⟨nofun, nofun⟩
  | reference mark target => exact ⟨nofun, nofun⟩

end Yaml.Node

open Yaml.Node

/-! ## Reading keys and values -/

theorem bind_eq_ok_iff {ε α β : Type} {x : Except ε α} {f : α → Except ε β} {b : β} :
    (x >>= f) = .ok b ↔ ∃ a, x = .ok a ∧ f a = .ok b := by
  cases x with
  | error e => exact ⟨nofun, nofun⟩
  | ok a => exact ⟨fun h ↦ ⟨a, rfl, h⟩, fun ⟨_, ha, h⟩ ↦ Except.ok.inj ha ▸ h⟩

section Read

variable {d : Document} {node : Node Nat} {label : String}

theorem follow_of_isAliasFree (h : node.isAliasFree) : d.follow node = node := by
  cases node with
  | reference mark target => exact absurd h Bool.false_ne_true
  | _ => rfl

theorem readText_eq_ok_iff (h : node.isAliasFree) {place : Place} {expected text : String} :
    readText d place expected node = .ok text ↔ node.HasText text := by
  rw [readText, follow_of_isAliasFree h]
  cases node with
  | scalar p style s => simp [HasText]
  | _ => simp [HasText, refuse]

/-- The items of a list are read one by one; their numbers matter to complaints only. -/
theorem mapM_readText_eq_ok_iff {items : List (Node Nat)} (h : ∀ item ∈ items, item.isAliasFree)
    (start : Nat) {texts : List String} :
    ((items.zipIdx start).mapM fun (item, index) ↦
        readText d (.item label index) "a string" item) = .ok texts ↔
      List.Forall₂ HasText items texts := by
  induction items generalizing start texts with
  | nil =>
    rw [List.zipIdx_nil, List.mapM_nil, List.forall₂_nil_left_iff]
    exact ⟨fun hnil ↦ (Except.ok.inj hnil).symm, fun hnil ↦ hnil ▸ rfl⟩
  | cons item items ih =>
    rw [List.forall_mem_cons] at h
    rw [List.zipIdx_cons, List.mapM_cons, bind_eq_ok_iff, List.forall₂_cons_left_iff]
    simp only [readText_eq_ok_iff h.1, bind_eq_ok_iff, ih h.2]
    constructor
    · rintro ⟨text, htext, texts, htexts, heq⟩
      exact ⟨text, texts, htext, htexts, (Except.ok.inj heq).symm⟩
    · rintro ⟨text, texts, htext, htexts, rfl⟩
      exact ⟨text, htext, texts, htexts, rfl⟩

theorem readList_eq_ok_iff (h : node.isAliasFree) {texts : List String} :
    readList d label node = .ok texts ↔ node.Lists texts := by
  rw [readList, follow_of_isAliasFree h]
  cases node with
  | scalar p style s =>
    by_cases habsent : isAbsent (.scalar p style s)
    · obtain ⟨rfl, rfl⟩ : style = .plain ∧ s = "" := by
        cases style <;> simp_all [isAbsent]
      simp only [habsent, if_true]
      constructor
      · intro hnil
        exact Except.ok.inj hnil ▸ .absent p
      · rintro ⟨⟩
        rfl
    · simp only [habsent]
      constructor
      · exact nofun
      · rintro ⟨⟩
        exact absurd rfl habsent
  | sequence p items =>
    rw [isAliasFree] at h
    simp only [mapM_readText_eq_ok_iff (isAliasFree_of_mem h)]
    exact ⟨.sequence p, fun | .sequence _ hitems => hitems⟩
  | mapping p members => exact ⟨nofun, nofun⟩
  | reference mark target => exact ⟨nofun, nofun⟩

theorem Field.ofName?_eq_some_iff {name : String} {f : Field} :
    Field.ofName? name = some f ↔ name = f.name := by
  constructor
  · intro h
    rw [Field.ofName?] at h
    have hname := List.find?_some h
    exact (eq_of_beq hname).symm
  · rintro rfl
    cases f <;> decide

theorem Field.name_injective : Function.Injective Field.name := by
  intro f g h
  have hf := Field.ofName?_eq_some_iff.mpr h
  rw [Field.ofName?_eq_some_iff.mpr rfl] at hf
  exact Option.some_inj.mp hf

/-- A key is the name of a list. -/
theorem readKey_eq_ok_iff (h : node.isAliasFree) {f : Field} :
    readKey d node = .ok (f, label) ↔ node.HasText f.name ∧ label = f.name := by
  rw [readKey, bind_eq_ok_iff]
  simp only [readText_eq_ok_iff h]
  constructor
  · rintro ⟨name, hname, hfield⟩
    obtain ⟨p, style, rfl⟩ := id hname
    split at hfield
    · rename_i g hg
      obtain ⟨rfl, rfl⟩ := Prod.mk.inj (Except.ok.inj hfield)
      rw [Field.ofName?_eq_some_iff] at hg
      subst hg
      exact ⟨hname, rfl⟩
    · cases hfield
  · rintro ⟨hname, rfl⟩
    refine ⟨f.name, hname, ?_⟩
    obtain ⟨p, style, rfl⟩ := hname
    rw [Field.ofName?_eq_some_iff.mpr rfl]

end Read

/-! ## Reading members -/

/-- What a member says: a list by its name, and the texts for it. -/
def Says (m : Node Nat × Node Nat) (said : Field × List String) : Prop :=
  m.1.HasText said.1.name ∧ m.2.Lists said.2

section Members

variable {d : Document} {mark : Mark} {given said : List (Field × List String)}
  {members : List (Node Nat × Node Nat)}

/-- One member is read if it says something about a list that none before it was about. -/
theorem readMembers_cons_eq_ok_iff {key value : Node Nat} (hkey : key.isAliasFree)
    (hvalue : value.isAliasFree) :
    readMembers d mark given ((key, value) :: members) = .ok said ↔
      ∃ f texts, Says (key, value) (f, texts) ∧ f ∉ given.map Prod.fst ∧
        readMembers d mark (given ++ [(f, texts)]) members = .ok said := by
  rw [readMembers, bind_eq_ok_iff]
  constructor
  · rintro ⟨⟨f, label⟩, hf, hrest⟩
    rw [readKey_eq_ok_iff hkey] at hf
    dsimp only at hrest
    split at hrest
    · cases hrest
    · rename_i hnew
      obtain ⟨texts, htexts, hrest⟩ := bind_eq_ok_iff.mp hrest
      rw [readList_eq_ok_iff hvalue] at htexts
      exact ⟨f, texts, ⟨hf.1, htexts⟩, by simpa using hnew, hrest⟩
  · rintro ⟨f, texts, ⟨hf, htexts⟩, hnew, hrest⟩
    refine ⟨(f, f.name), (readKey_eq_ok_iff hkey).mpr ⟨hf, rfl⟩, ?_⟩
    dsimp only
    rw [if_neg (by simpa using hnew)]
    exact bind_eq_ok_iff.mpr ⟨texts, (readList_eq_ok_iff hvalue).mpr htexts, hrest⟩

/-- **Members are read if each says something, and all about different lists.** -/
theorem readMembers_eq_ok_iff (h : pairsAliasFree members) (hgiven : (given.map Prod.fst).Nodup) :
    readMembers d mark given members = .ok said ↔
      ∃ new, List.Forall₂ Says members new ∧ said = given ++ new ∧ (said.map Prod.fst).Nodup := by
  induction members generalizing given with
  | nil =>
    rw [readMembers]
    constructor
    · intro hsaid
      obtain rfl := Except.ok.inj hsaid
      exact ⟨[], .nil, (List.append_nil given).symm, hgiven⟩
    · rintro ⟨new, hnew, rfl, -⟩
      rw [List.forall₂_nil_left_iff.mp hnew, List.append_nil]
  | cons m members ih =>
    obtain ⟨key, value⟩ := m
    rw [pairsAliasFree, Bool.and_eq_true, Bool.and_eq_true] at h
    have hadd : ∀ f texts, f ∉ given.map Prod.fst →
        ((given ++ [(f, texts)]).map Prod.fst).Nodup := by
      intro f texts hf
      rw [List.map_append, List.map_singleton, ← List.concat_eq_append]
      exact List.Nodup.concat hf hgiven
    rw [readMembers_cons_eq_ok_iff h.1.1 h.1.2]
    constructor
    · rintro ⟨f, texts, hmember, hf, hrest⟩
      obtain ⟨new, hnew, rfl, hnodup⟩ := (ih h.2 (hadd f texts hf)).mp hrest
      exact ⟨(f, texts) :: new, .cons hmember hnew, (List.append_cons given (f, texts) new).symm,
        hnodup⟩
    · rintro ⟨new, hnew, rfl, hnodup⟩
      obtain ⟨⟨f, texts⟩, new, hmember, hrest, rfl⟩ := List.forall₂_cons_left_iff.mp hnew
      have hf : f ∉ given.map Prod.fst := by
        rw [List.map_append, List.map_cons, List.nodup_append] at hnodup
        intro hmem
        exact hnodup.2.2 f hmem f List.mem_cons_self rfl
      refine ⟨f, texts, hmember, hf, (ih h.2 (hadd f texts hf)).mpr ⟨new, hrest, ?_, hnodup⟩⟩
      exact List.append_cons given (f, texts) new

end Members

/-! ## Settings from members -/

/-- The list of the settings that a field is about. -/
def Settings.list (s : Settings) : Field → List String
  | .ignoredDirs => s.ignoredDirs
  | .extensions => s.extensions
  | .excludedKeywords => s.excludedKeywords

theorem Settings.eq_of_list_eq {s t : Settings} (h : ∀ f, s.list f = t.list f) : s = t := by
  obtain ⟨dirs, extensions, keywords⟩ := s
  obtain ⟨dirs', extensions', keywords'⟩ := t
  obtain rfl : dirs = dirs' := h .ignoredDirs
  obtain rfl : extensions = extensions' := h .extensions
  obtain rfl : keywords = keywords' := h .excludedKeywords
  rfl

theorem Settings.list_ofLists (given : List (Field × List String)) (f : Field) :
    (Settings.ofLists given).list f = (given.lookup f).getD (({} : Settings).list f) := by
  cases f <;> rfl

/-- Members that describe settings: every key is the name of a list, no name comes twice, and every
value is left out or a sequence of scalars. -/
@[mk_iff]
structure Acceptable (members : List (Node Nat × Node Nat)) : Prop where
  known : ∀ m ∈ members, ∃ f : Field, m.1.HasText f.name
  distinct : members.Pairwise fun m m' ↦ ∀ text, m.1.HasText text → ¬m'.1.HasText text
  listed : ∀ m ∈ members, ∃ texts, m.2.Lists texts

/-- The settings that members describe: for each list named the texts listed, and the default for
each list that is not named. -/
@[mk_iff]
structure Describes (members : List (Node Nat × Node Nat)) (s : Settings) : Prop where
  named : ∀ m ∈ members, ∀ f texts, m.1.HasText (Field.name f) → m.2.Lists texts → s.list f = texts
  unnamed : ∀ f, (∀ m ∈ members, ¬m.1.HasText (Field.name f)) → s.list f = ({} : Settings).list f

section Describes

variable {members members' : List (Node Nat × Node Nat)} {said : List (Field × List String)}
  {s t : Settings}

theorem exists_mem_of_forall₂ {α β : Type} {R : α → β → Prop} {l : List α} {m : List β}
    (h : List.Forall₂ R l m) : ∀ a ∈ l, ∃ b ∈ m, R a b := by
  induction h with
  | nil => exact nofun
  | @cons a b l m hab _ ih =>
    refine List.forall_mem_cons.mpr ⟨⟨b, List.mem_cons_self, hab⟩, fun a' ha' ↦ ?_⟩
    obtain ⟨b', hb', hab'⟩ := ih a' ha'
    exact ⟨b', List.mem_cons_of_mem b hb', hab'⟩

theorem exists_member_of_mem (h : List.Forall₂ Says members said) :
    ∀ said₁ ∈ said, ∃ m ∈ members, Says m said₁ :=
  exists_mem_of_forall₂ (List.Forall₂.flip h)

/-- Acceptable members say something about different lists. -/
theorem Acceptable.exists_forall₂ (h : Acceptable members) :
    ∃ said, List.Forall₂ Says members said ∧ (said.map Prod.fst).Nodup := by
  induction members with
  | nil => exact ⟨[], .nil, .nil⟩
  | cons m members ih =>
    obtain ⟨hknown, hdistinct, hlisted⟩ := h
    rw [List.forall_mem_cons] at hknown hlisted
    rw [List.pairwise_cons] at hdistinct
    obtain ⟨f, hf⟩ := hknown.1
    obtain ⟨texts, htexts⟩ := hlisted.1
    obtain ⟨said, hsaid, hnodup⟩ := ih ⟨hknown.2, hdistinct.2, hlisted.2⟩
    refine ⟨(f, texts) :: said, .cons ⟨hf, htexts⟩ hsaid, List.nodup_cons.mpr ⟨?_, hnodup⟩⟩
    intro hmem
    obtain ⟨⟨g, others⟩, hg, rfl⟩ := List.mem_map.mp hmem
    obtain ⟨m', hm', hmember⟩ := exists_member_of_mem hsaid _ hg
    exact hdistinct.1 m' hm' _ hf hmember.1

/-- Members that say something about different lists are acceptable. -/
theorem acceptable_of_forall₂ (h : List.Forall₂ Says members said)
    (hnodup : (said.map Prod.fst).Nodup) : Acceptable members := by
  refine ⟨fun m hm ↦ ?_, ?_, fun m hm ↦ ?_⟩
  · obtain ⟨⟨f, texts⟩, -, hmember⟩ := exists_mem_of_forall₂ h m hm
    exact ⟨f, hmember.1⟩
  · induction h with
    | nil => exact .nil
    | @cons m said₁ members said hm hmembers ih =>
      rw [List.map_cons, List.nodup_cons] at hnodup
      refine List.pairwise_cons.mpr ⟨fun m' hm' text htext htext' ↦ ?_, ih hnodup.2⟩
      obtain ⟨said', hsaid', hmember⟩ := exists_mem_of_forall₂ hmembers m' hm'
      have hname := (hm.1.unique htext).trans (htext'.unique hmember.1)
      rw [Field.name_injective hname] at hnodup
      exact hnodup.1 (List.mem_map_of_mem hsaid')
  · obtain ⟨⟨f, texts⟩, -, hmember⟩ := exists_mem_of_forall₂ h m hm
    exact ⟨texts, hmember.2⟩

theorem lookup_eq_some_of_mem {f : Field} {texts : List String}
    (hnodup : (said.map Prod.fst).Nodup) (hmem : (f, texts) ∈ said) :
    said.lookup f = some texts := by
  obtain ⟨before, after, rfl⟩ := List.append_of_mem hmem
  refine List.lookup_eq_some_iff.mpr ⟨before, after, rfl, fun p hp ↦ ?_⟩
  rw [List.map_append, List.map_cons, List.nodup_append] at hnodup
  rw [bne_iff_ne]
  exact (hnodup.2.2 p.1 (List.mem_map_of_mem hp) f List.mem_cons_self).symm

/-- **The settings with the lists that members give are the settings they describe.** -/
theorem describes_ofLists (h : List.Forall₂ Says members said)
    (hnodup : (said.map Prod.fst).Nodup) : Describes members (.ofLists said) := by
  refine ⟨fun m hm f texts hf htexts ↦ ?_, fun f hf ↦ ?_⟩
  · obtain ⟨⟨g, others⟩, hmem, hmember⟩ := exists_mem_of_forall₂ h m hm
    obtain rfl : g = f := Field.name_injective (hmember.1.unique hf)
    obtain rfl : others = texts := hmember.2.unique htexts
    rw [Settings.list_ofLists, lookup_eq_some_of_mem hnodup hmem, Option.getD_some]
  · have hnone : said.lookup f = none := by
      rw [List.lookup_eq_none_iff]
      intro said₁ hmem
      obtain ⟨m, hm, hmember⟩ := exists_member_of_mem h said₁ hmem
      rw [bne_iff_ne]
      rintro rfl
      exact hf m hm hmember.1
    rw [Settings.list_ofLists, hnone, Option.getD_none]

theorem Describes.unique (hmembers : Acceptable members) (hs : Describes members s)
    (ht : Describes members t) : s = t := by
  apply Settings.eq_of_list_eq
  intro f
  by_cases hf : ∃ m ∈ members, m.1.HasText f.name
  · obtain ⟨m, hm, hname⟩ := hf
    obtain ⟨texts, htexts⟩ := hmembers.listed m hm
    rw [hs.named m hm f texts hname htexts, ht.named m hm f texts hname htexts]
  · have hnone : ∀ m ∈ members, ¬m.1.HasText f.name := fun m hm hname ↦ hf ⟨m, hm, hname⟩
    rw [hs.unnamed f hnone, ht.unnamed f hnone]

/-! ## Reordering -/

theorem acceptable_bareMembers_iff : Acceptable (bareMembers members) ↔ Acceptable members := by
  simp only [acceptable_iff, bareMembers_eq_map, List.forall_mem_map, List.pairwise_map,
    hasText_bare_iff, lists_bare_iff]

theorem describes_bareMembers_iff : Describes (bareMembers members) s ↔ Describes members s := by
  simp only [describes_iff, bareMembers_eq_map, List.forall_mem_map, hasText_bare_iff,
    lists_bare_iff]

theorem Acceptable.perm (h : Acceptable members) (hperm : members.Perm members') :
    Acceptable members' where
  known m hm := h.known m (hperm.mem_iff.mpr hm)
  distinct := h.distinct.perm hperm fun hne text htext htext' ↦ hne text htext' htext
  listed m hm := h.listed m (hperm.mem_iff.mpr hm)

theorem Describes.perm (h : Describes members s) (hperm : members.Perm members') :
    Describes members' s where
  named m hm := h.named m (hperm.mem_iff.mpr hm)
  unnamed f hf := h.unnamed f fun m hm ↦ hf m (hperm.mem_iff.mp hm)

/-- Neither the order of members nor their places and properties count. -/
theorem acceptable_describes_of_perm (hperm : (bareMembers members).Perm (bareMembers members'))
    (h : Acceptable members) (hs : Describes members s) :
    Acceptable members' ∧ Describes members' s := by
  rw [← acceptable_bareMembers_iff] at h ⊢
  rw [← describes_bareMembers_iff] at hs ⊢
  exact ⟨h.perm hperm, hs.perm hperm⟩

end Describes

/-! ## Main result -/

/-- A text that is not blank and holds a mapping with the given members, none of them an alias. -/
structure Presents (text : List Char) (members : List (Node Nat × Node Nat)) : Prop where
  notBlank : text.all Text.isBlank = false
  mapping : ∃ d p, Document.read text = .ok d ∧ d.root = some (.mapping p members)
  aliasFree : pairsAliasFree members

theorem Settings.ofDocument_eq_ok_iff {d : Document} {p : Properties}
    {members : List (Node Nat × Node Nat)} (hroot : d.root = some (.mapping p members))
    {s : Settings} : Settings.ofDocument d = .ok s ↔
      ∃ said, readMembers d p.mark [] members = .ok said ∧ .ofLists said = s := by
  rw [Settings.ofDocument, hroot]
  simp only [Document.follow, bind_eq_ok_iff, Except.ok.injEq]

theorem Settings.parse_eq_ok_iff {text : List Char} {d : Document}
    (hblank : text.all Text.isBlank = false) (hread : Document.read text = .ok d) {s : Settings} :
    Settings.parse text = .ok s ↔ Settings.ofDocument d = .ok s := by
  rw [Settings.parse, if_neg (by rw [hblank]; exact Bool.false_ne_true), hread]
  rcases hd : Settings.ofDocument d with problem | t <;> simp [hd]

/-- **A mapping is parsed to the settings it describes, if it describes any.** -/
theorem Presents.parse_eq_ok_iff {text : List Char} {members : List (Node Nat × Node Nat)}
    (h : Presents text members) {s : Settings} :
    Settings.parse text = .ok s ↔ Acceptable members ∧ Describes members s := by
  obtain ⟨d, p, hread, hroot⟩ := h.mapping
  rw [Settings.parse_eq_ok_iff h.notBlank hread, Settings.ofDocument_eq_ok_iff hroot]
  have hnone : (([] : List (Field × List String)).map Prod.fst).Nodup := .nil
  simp only [readMembers_eq_ok_iff h.aliasFree hnone, List.nil_append]
  constructor
  · rintro ⟨said, ⟨_, hmember, rfl, hnodup⟩, rfl⟩
    exact ⟨acceptable_of_forall₂ hmember hnodup, describes_ofLists hmember hnodup⟩
  · rintro ⟨hmembers, hs⟩
    obtain ⟨said, hmember, hnodup⟩ := hmembers.exists_forall₂
    exact ⟨said, ⟨said, hmember, rfl, hnodup⟩,
      (describes_ofLists hmember hnodup).unique hmembers hs⟩

/-- **Settings in a document.** Let a text that is not blank hold a mapping without aliases. It is
parsed without complaint exactly when every key is the name of a list, no name comes twice and every
value is left out or a sequence of scalars; the settings are then the texts listed, in order, for
the lists that are named, and the defaults for the others. Any text that holds the same members in
another order, wherever they stand in it, is parsed to the same settings. -/
theorem parse_of_presents (text : List Char) (members : List (Node Nat × Node Nat))
    (h : Presents text members) :
    ((∃ s, Settings.parse text = .ok s) ↔ Acceptable members) ∧
      (∀ s, Settings.parse text = .ok s → Describes members s) ∧
      ∀ text' members', Presents text' members' →
        (bareMembers members).Perm (bareMembers members') →
        ∀ s, Settings.parse text = .ok s → Settings.parse text' = .ok s := by
  simp only [h.parse_eq_ok_iff]
  refine ⟨⟨fun ⟨s, hmembers, _⟩ ↦ hmembers, fun hmembers ↦ ?_⟩, fun s hs ↦ hs.2, ?_⟩
  · obtain ⟨said, hmember, hnodup⟩ := hmembers.exists_forall₂
    exact ⟨.ofLists said, hmembers, describes_ofLists hmember hnodup⟩
  · intro text' members' h' hperm s ⟨hmembers, hs⟩
    exact h'.parse_eq_ok_iff.mpr (acceptable_describes_of_perm hperm hmembers hs)

/-- Two endings, one of which would be nothing elsewhere. -/
def twoEndings (key value first second : Mark) : Node Nat × Node Nat :=
  (.scalar { mark := key } .plain "extensions",
    .sequence { mark := value }
      [.scalar { mark := first } .plain "c", .scalar { mark := second } .plain "~"])

/-- A name without a value. -/
def noDirectories (key value : Mark) : Node Nat × Node Nat :=
  (.scalar { mark := key } .plain "ignored_dirs", .absent value)

/-- The endings on a line, above the other member. -/
def endingsFirst : List Char :=
  "extensions: [c, ~]\nignored_dirs:\n".toList

/-- The endings line by line, below the other member. -/
def endingsLast : List Char :=
  "ignored_dirs:\nextensions:\n- c\n- ~\n".toList

theorem presents_endingsFirst : Presents endingsFirst
    [twoEndings ⟨0, 0⟩ ⟨0, 12⟩ ⟨0, 13⟩ ⟨0, 16⟩, noDirectories ⟨1, 0⟩ ⟨1, 13⟩] where
  notBlank := by decide
  mapping := ⟨⟨some _, []⟩, {}, by decide +kernel, rfl⟩
  aliasFree := by decide

theorem presents_endingsLast : Presents endingsLast
    [noDirectories ⟨0, 0⟩ ⟨0, 13⟩, twoEndings ⟨1, 0⟩ ⟨2, 0⟩ ⟨2, 2⟩ ⟨3, 2⟩] where
  notBlank := by decide
  mapping := ⟨⟨some _, []⟩, {}, by decide +kernel, rfl⟩
  aliasFree := by decide

theorem parse_of_presents_endings :
    ∃ s, Settings.parse endingsFirst = .ok s ∧ Settings.parse endingsLast = .ok s ∧
      s.ignoredDirs = [] ∧ s.extensions = ["c", "~"] ∧ s.excludedKeywords = controlWords := by
  obtain ⟨haccepted, hdescribes, hreordered⟩ := parse_of_presents _ _ presents_endingsFirst
  have hendings : (twoEndings ⟨0, 0⟩ ⟨0, 12⟩ ⟨0, 13⟩ ⟨0, 16⟩).2.Lists ["c", "~"] :=
    .sequence _ (.cons ⟨_, _, rfl⟩ (.cons ⟨_, _, rfl⟩ .nil))
  have hdirs : (noDirectories ⟨1, 0⟩ ⟨1, 13⟩).2.Lists [] := .absent _
  obtain ⟨s, hs⟩ := haccepted.mpr <| acceptable_of_forall₂
    (.cons (b := (.extensions, ["c", "~"])) ⟨⟨_, _, rfl⟩, hendings⟩
      (.cons (b := (.ignoredDirs, [])) ⟨⟨_, _, rfl⟩, hdirs⟩ .nil)) (by decide)
  obtain ⟨hnamed, hunnamed⟩ := hdescribes s hs
  refine ⟨s, hs, hreordered _ _ presents_endingsLast (.swap _ _ _) s hs, ?_, ?_, ?_⟩
  · exact hnamed _ (List.mem_cons_of_mem _ List.mem_cons_self) .ignoredDirs [] ⟨_, _, rfl⟩ hdirs
  · exact hnamed _ List.mem_cons_self .extensions _ ⟨_, _, rfl⟩ hendings
  · refine hunnamed .excludedKeywords fun m hm ↦ ?_
    simp only [List.mem_cons, List.not_mem_nil, or_false] at hm
    rcases hm with rfl | rfl
    · exact fun h ↦ absurd (h.unique ⟨_, _, rfl⟩) (by decide)
    · exact fun h ↦ absurd (h.unique ⟨_, _, rfl⟩) (by decide)

end CallSites
