/-!
# Sets of names

A set of names is kept as the list of its members by increasing code points, each once. Two such
lists with the same members are equal, so equality of sets is equality of lists.
-/

namespace CallSites

/-- `name` put into its place in a sorted list, unless it is there already. -/
def insertName (name : String) : List String → List String
  | [] => [name]
  | n :: ns =>
    if name < n then name :: n :: ns
    else if name = n then n :: ns
    else n :: insertName name ns

theorem mem_insertName {name n : String} {ns : List String} :
    n ∈ insertName name ns ↔ n = name ∨ n ∈ ns := by
  induction ns with
  | nil => simp [insertName]
  | cons m ms ih =>
    rw [insertName]
    split
    · simp
    · split
      · rename_i heq
        subst heq
        simp
      · simp only [List.mem_cons, ih]
        exact or_left_comm

theorem pairwise_insertName {name : String} {ns : List String} (h : ns.Pairwise (· < ·)) :
    (insertName name ns).Pairwise (· < ·) := by
  induction ns with
  | nil => simp [insertName]
  | cons m ms ih =>
    have hm := List.pairwise_cons.1 h
    rw [insertName]
    split
    · rename_i hlt
      exact List.pairwise_cons.2 ⟨fun a ha ↦ (List.mem_cons.1 ha).elim (· ▸ hlt)
        fun ha ↦ String.lt_trans hlt (hm.1 a ha), h⟩
    · split
      · exact h
      · rename_i hlt hne
        refine List.pairwise_cons.2 ⟨fun a ha ↦ ?_, ih hm.2⟩
        rcases mem_insertName.1 ha with rfl | ha
        · exact Std.lt_of_le_of_ne (String.not_lt.1 hlt) fun heq ↦ hne heq.symm
        · exact hm.1 a ha

/-- A finite set of names. -/
structure NameSet where
  /-- The members, by increasing code points. -/
  toList : List String := []
  sorted : toList.Pairwise (· < ·) := by simp
  deriving Repr, DecidableEq

namespace NameSet

instance : EmptyCollection NameSet := ⟨{}⟩

instance : Inhabited NameSet := ⟨∅⟩

instance : Membership String NameSet := ⟨fun s name ↦ name ∈ s.toList⟩

instance (name : String) (s : NameSet) : Decidable (name ∈ s) :=
  inferInstanceAs (Decidable (name ∈ s.toList))

/-- The set with one more member. -/
def insert (s : NameSet) (name : String) : NameSet where
  toList := insertName name s.toList
  sorted := pairwise_insertName s.sorted

/-- The set of the names in a list. -/
def ofList (names : List String) : NameSet :=
  names.foldl insert ∅

/-- The members of either set. -/
def union (s t : NameSet) : NameSet :=
  t.toList.foldl insert s

/-- The number of members. -/
def size (s : NameSet) : Nat :=
  s.toList.length

@[simp]
theorem mem_insert {s : NameSet} {name n : String} : n ∈ s.insert name ↔ n = name ∨ n ∈ s :=
  mem_insertName

theorem mem_foldl_insert {names : List String} {s : NameSet} {n : String} :
    n ∈ names.foldl insert s ↔ n ∈ names ∨ n ∈ s := by
  induction names generalizing s with
  | nil => simp
  | cons m ms ih =>
    rw [List.foldl_cons, ih, mem_insert, List.mem_cons, or_assoc, or_left_comm]

@[simp]
theorem not_mem_empty (n : String) : n ∉ (∅ : NameSet) :=
  List.not_mem_nil

@[simp]
theorem mem_ofList {names : List String} {n : String} : n ∈ ofList names ↔ n ∈ names := by
  simp [ofList, mem_foldl_insert]

@[simp]
theorem mem_union {s t : NameSet} {n : String} : n ∈ s.union t ↔ n ∈ s ∨ n ∈ t := by
  rw [union, mem_foldl_insert, or_comm]
  rfl

end NameSet

end CallSites
