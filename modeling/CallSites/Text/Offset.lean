/-!
# Byte offsets

Positions in a text are counted in bytes of its UTF-8 form, while the text itself is a list of
characters. An offset is a *boundary* when some number of whole characters ends there; the functions
here cut a text at boundaries.
-/

namespace CallSites.Text

/-- The length of a text in bytes. -/
def byteLength (cs : List Char) : Nat :=
  cs.foldr (fun c n ↦ c.utf8Size + n) 0

/-- What is left of a text after its first `n` bytes. -/
def dropBytes : Nat → List Char → List Char
  | 0, cs => cs
  | _ + 1, [] => []
  | n + 1, c :: cs => dropBytes (n + 1 - c.utf8Size) cs

/-- The characters that start in the first `n` bytes of a text. -/
def takeBytes : Nat → List Char → List Char
  | 0, _ => []
  | _ + 1, [] => []
  | n + 1, c :: cs => c :: takeBytes (n + 1 - c.utf8Size) cs

/-- The part of a text between two offsets. -/
def slice (cs : List Char) (start stop : Nat) : List Char :=
  takeBytes (stop - start) (dropBytes start cs)

/-- Whether `n` bytes of a text are a whole number of its characters. -/
def isBoundary : List Char → Nat → Bool
  | _, 0 => true
  | [], _ + 1 => false
  | c :: cs, n + 1 => decide (c.utf8Size ≤ n + 1) && isBoundary cs (n + 1 - c.utf8Size)

@[simp]
theorem byteLength_nil : byteLength [] = 0 := rfl

@[simp]
theorem byteLength_cons (c : Char) (cs : List Char) :
    byteLength (c :: cs) = c.utf8Size + byteLength cs := rfl

@[simp]
theorem byteLength_append (cs ds : List Char) :
    byteLength (cs ++ ds) = byteLength cs + byteLength ds := by
  induction cs with
  | nil => rw [List.nil_append, byteLength_nil, Nat.zero_add]
  | cons c cs ih => rw [List.cons_append, byteLength_cons, byteLength_cons, ih, Nat.add_assoc]

/-- Offset zero and the length of whatever stands before a cut are boundaries. -/
theorem isBoundary_byteLength (cs ds : List Char) : isBoundary (cs ++ ds) (byteLength cs) := by
  induction cs with
  | nil => simp [isBoundary]
  | cons c cs ih =>
    have hc : 0 < c.utf8Size := c.utf8Size_pos
    obtain ⟨n, hn⟩ : ∃ n, c.utf8Size + byteLength cs = n + 1 :=
      ⟨c.utf8Size + byteLength cs - 1, by omega⟩
    have hsub : n + 1 - c.utf8Size = byteLength cs := by omega
    rw [List.cons_append, byteLength_cons, hn, isBoundary, hsub, ih]
    simp only [Bool.and_true, decide_eq_true_eq]
    omega

/-- Cutting at a boundary leaves exactly what stands behind it. -/
theorem dropBytes_byteLength (cs ds : List Char) : dropBytes (byteLength cs) (cs ++ ds) = ds := by
  induction cs with
  | nil => simp [dropBytes]
  | cons c cs ih =>
    have hc : 0 < c.utf8Size := c.utf8Size_pos
    obtain ⟨n, hn⟩ : ∃ n, c.utf8Size + byteLength cs = n + 1 :=
      ⟨c.utf8Size + byteLength cs - 1, by omega⟩
    have hsub : n + 1 - c.utf8Size = byteLength cs := by omega
    rw [List.cons_append, byteLength_cons, hn, dropBytes, hsub, ih]

/-- Cutting at a boundary keeps exactly what stands before it. -/
theorem takeBytes_byteLength (cs ds : List Char) : takeBytes (byteLength cs) (cs ++ ds) = cs := by
  induction cs with
  | nil => simp [takeBytes]
  | cons c cs ih =>
    have hc : 0 < c.utf8Size := c.utf8Size_pos
    obtain ⟨n, hn⟩ : ∃ n, c.utf8Size + byteLength cs = n + 1 :=
      ⟨c.utf8Size + byteLength cs - 1, by omega⟩
    have hsub : n + 1 - c.utf8Size = byteLength cs := by omega
    rw [List.cons_append, byteLength_cons, hn, takeBytes, hsub, ih]

/-- A text is cut in two at each of its boundaries. -/
theorem exists_split_of_isBoundary {cs : List Char} {n : Nat} (h : isBoundary cs n) :
    ∃ before after, cs = before ++ after ∧ byteLength before = n := by
  fun_induction isBoundary cs n with
  | case1 cs => exact ⟨[], cs, rfl, rfl⟩
  | case2 n => exact absurd h Bool.false_ne_true
  | case3 c cs n ih =>
    rw [Bool.and_eq_true, decide_eq_true_eq] at h
    obtain ⟨before, after, rfl, hlen⟩ := ih h.2
    refine ⟨c :: before, after, rfl, ?_⟩
    rw [byteLength_cons, hlen]
    omega

end CallSites.Text
