import CallSites.Proofs.JsonTokens

/-!
# The value of a JSON text

The second stage of reading: tokens are put together to a value. Values contain values to any depth,
so the reader keeps a stack of what is still open, and takes one token after the other. No token is
looked at twice, and what a token may do depends only on the place where the reader stands.

The main statement is that a written value is read back, whatever its depth. The induction is over
the value; what carries it is that the reader comes from the place before a written value to the
place behind it without touching what is open around it.
-/

namespace CallSites.Json

/-! ## Reading -/

/-- A value of any kind. -/
inductive Value where
  | null
  | bool (b : Bool)
  | number (d : Decimal)
  | string (s : String)
  | array (items : List Value)
  | object (members : List (String × Value))

/-- What is open around a value: a list or an object, with what has been read of it in reverse, and
in an object with the key of the value. -/
inductive Frame where
  | array (done : List Value)
  | object (done : List (String × Value)) (key : String)

/-- Where a reader stands. -/
inductive Place where
  /-- A value follows. -/
  | value (frames : List Frame)
  /-- A key follows, in an object whose members so far are given in reverse. -/
  | key (done : List (String × Value)) (frames : List Frame)
  /-- The separator of the key from its value follows. -/
  | separator (done : List (String × Value)) (key : String) (frames : List Frame)
  /-- A value has been read. -/
  | behind (v : Value) (frames : List Frame)

/-- Where a token leads. A list or an object may end as soon as it begins, but not behind a
comma. -/
def Place.step : Place → Token → Option Place
  | value fs, .null => some (behind .null fs)
  | value fs, .bool b => some (behind (.bool b) fs)
  | value fs, .number d => some (behind (.number d) fs)
  | value fs, .string s => some (behind (.string s) fs)
  | value fs, .mark .beginArray => some (value (.array [] :: fs))
  | value (.array [] :: fs), .mark .endArray => some (behind (.array []) fs)
  | value fs, .mark .beginObject => some (key [] fs)
  | key [] fs, .mark .endObject => some (behind (.object []) fs)
  | key done fs, .string k => some (separator done k fs)
  | separator done k fs, .mark .nameSeparator => some (value (.object done k :: fs))
  | behind v (.array done :: fs), .mark .valueSeparator => some (value (.array (v :: done) :: fs))
  | behind v (.array done :: fs), .mark .endArray =>
    some (behind (.array (v :: done).reverse) fs)
  | behind v (.object done k :: fs), .mark .valueSeparator => some (key ((k, v) :: done) fs)
  | behind v (.object done k :: fs), .mark .endObject =>
    some (behind (.object ((k, v) :: done).reverse) fs)
  | _, _ => none

/-- Where a text leads from `p`. -/
def Place.read (p : Place) (cs : List Char) : Option Place := do
  (← tokens cs).foldlM Place.step p

/-- The value of a text, if the text is one value and nothing else. -/
def Value.ofText? (text : String) : Option Value :=
  match (Place.value []).read text.toList with
  | some (.behind v []) => some v
  | _ => none

example : Value.ofText? " \x7b\"a\":[null,\ttrue , -1.5e2],\"\": \x7b\x7d\x7d" =
    some (.object
      [("a", .array [.null, .bool true, .number ⟨true, 15, 1⟩]), ("", .object [])]) := by
  rfl

example : ∀ text ∈ ["", "[", "[1,]", "[,1]", "[1 2]", "\x7b\"a\"\x7d", "\x7b1:2\x7d", "1 2", "]"],
    (Value.ofText? text).isNone := by
  decide

mutual

/-- A written value as a value of any kind. -/
def toValue : Json → Value
  | number n => .number ⟨false, n, 0⟩
  | string s => .string s
  | array items => .array (toValues items)
  | object members => .object (toMembers members)

/-- Written values as values of any kind. -/
def toValues : List Json → List Value
  | [] => []
  | v :: vs => v.toValue :: toValues vs

/-- Written members as members of any kind. -/
def toMembers : List (String × Json) → List (String × Value)
  | [] => []
  | (key, v) :: ms => (key, v.toValue) :: toMembers ms

end

/-! ## What is written is read -/

namespace Place

variable {p q : Place}

/-- A text that begins with a token is read by one step. -/
theorem read_of_tokens {t : Token} {cs rest : List Char}
    (h : tokens cs = (tokens rest).map (t :: ·)) (hstep : p.step t = some q) :
    p.read cs = q.read rest := by
  rw [read, h, read]
  cases tokens rest <;> simp [hstep]

theorem read_mark {c : Char} {m : Mark} (h : role c = .mark m) (hstep : p.step (.mark m) = some q)
    (rest : List Char) : p.read (c :: rest) = q.read rest :=
  read_of_tokens (tokens_cons_of_mark h rest) hstep

theorem read_writeString {s : String} (hstep : p.step (.string s) = some q) (rest : List Char) :
    p.read (writeString s ++ rest) = q.read rest :=
  read_of_tokens (tokens_writeString s rest) hstep

theorem read_toDigits {n : Nat} (hstep : p.step (.number ⟨false, n, 0⟩) = some q)
    {rest : List Char} (h : EndsWord rest) : p.read (Nat.toDigits 10 n ++ rest) = q.read rest :=
  read_of_tokens (tokens_toDigits n h) hstep

theorem read_blank {c : Char} (h : role c = .blank) (rest : List Char) :
    p.read (c :: rest) = p.read rest := by
  rw [read, tokens_cons_of_blank h, read]

theorem read_freshLine (depth : Nat) (rest : List Char) :
    p.read (freshLine depth ++ rest) = p.read rest := by
  have hspaces : ∀ n, p.read (List.replicate n ' ' ++ rest) = p.read rest := by
    intro n
    induction n with
    | zero => rfl
    | succ n ih => rw [List.replicate_succ, List.cons_append, read_blank rfl, ih]
  rw [freshLine, List.cons_append, read_blank rfl, hspaces]

theorem endsWord_cons {c : Char} (h : role c ≠ .letter) (rest : List Char) :
    EndsWord (c :: rest) := by
  intro d hd
  obtain rfl : c = d := by simpa using hd
  exact h

theorem endsWord_writeItems (depth outer : Nat) (vs : List Json) (rest : List Char) :
    EndsWord (writeItems depth vs ++ (freshLine outer ++ rest)) := by
  cases vs with
  | nil => exact endsWord_cons (by decide) _
  | cons v vs =>
    rw [writeItems]
    exact endsWord_cons (by decide) _

theorem endsWord_writeMembers (depth outer : Nat) (ms : List (String × Json)) (rest : List Char) :
    EndsWord (writeMembers depth ms ++ (freshLine outer ++ rest)) := by
  match ms with
  | [] => exact endsWord_cons (by decide) _
  | (k, v) :: ms =>
    rw [writeMembers]
    exact endsWord_cons (by decide) _

mutual

/-- **A written value is read as one value**, and what is open around it stays as it is. -/
theorem read_writeAt (depth : Nat) (v : Json) (fs : List Frame) {rest : List Char}
    (h : EndsWord rest) :
    (value fs).read (v.writeAt depth ++ rest) = (behind v.toValue fs).read rest := by
  match v with
  | .number n =>
    rw [writeAt, toValue]
    exact read_toDigits rfl h
  | .string s =>
    rw [writeAt, toValue]
    exact read_writeString rfl rest
  | .array [] =>
    rw [writeAt, List.cons_append, read_mark rfl rfl, List.singleton_append, read_mark rfl rfl,
      toValue, toValues]
  | .array (v :: vs) =>
    simp only [writeAt, List.cons_append, List.append_assoc, List.nil_append]
    rw [read_mark rfl rfl, read_freshLine,
      read_writeAt (depth + 1) v _ (endsWord_writeItems _ _ _ _), read_writeItems, toValue,
      toValues]
    rfl
  | .object [] =>
    rw [writeAt, List.cons_append, read_mark rfl rfl, List.singleton_append, read_mark rfl rfl,
      toValue, toMembers]
  | .object ((k, v) :: ms) =>
    simp only [writeAt, List.cons_append, List.append_assoc, List.nil_append]
    rw [read_mark rfl rfl, read_freshLine, read_writeString rfl, read_mark rfl rfl, read_blank rfl,
      read_writeAt (depth + 1) v _ (endsWord_writeMembers _ _ _ _), read_writeMembers, toValue,
      toMembers]
    rfl

theorem read_writeItems (depth outer : Nat) (vs : List Json) (v : Value) (done : List Value)
    (fs : List Frame) (rest : List Char) :
    (behind v (.array done :: fs)).read (writeItems depth vs ++ (freshLine outer ++ ']' :: rest)) =
      (behind (.array (done.reverse ++ v :: toValues vs)) fs).read rest := by
  match vs with
  | [] =>
    rw [writeItems, List.nil_append, read_freshLine, read_mark rfl rfl, toValues,
      List.reverse_cons]
  | w :: vs =>
    simp only [writeItems, List.cons_append, List.append_assoc]
    rw [read_mark rfl rfl, read_freshLine, read_writeAt depth w _ (endsWord_writeItems _ _ _ _),
      read_writeItems, toValues, List.reverse_cons, List.append_assoc, List.singleton_append]

theorem read_writeMembers (depth outer : Nat) (ms : List (String × Json)) (k : String) (v : Value)
    (done : List (String × Value)) (fs : List Frame) (rest : List Char) :
    (behind v (.object done k :: fs)).read
        (writeMembers depth ms ++ (freshLine outer ++ '\x7d' :: rest)) =
      (behind (.object (done.reverse ++ (k, v) :: toMembers ms)) fs).read rest := by
  match ms with
  | [] =>
    rw [writeMembers, List.nil_append, read_freshLine, read_mark rfl rfl, toMembers,
      List.reverse_cons]
  | (l, w) :: ms =>
    simp only [writeMembers, List.cons_append, List.append_assoc, List.nil_append]
    rw [read_mark rfl rfl, read_freshLine, read_writeString rfl, read_mark rfl rfl, read_blank rfl,
      read_writeAt depth w _ (endsWord_writeMembers _ _ _ _), read_writeMembers, toMembers,
      List.reverse_cons, List.append_assoc, List.singleton_append]

end

end Place

/-- **A written value is read back.** -/
theorem ofText?_write (v : Json) : Value.ofText? v.write = some v.toValue := by
  have hends : EndsWord [] := by simp [EndsWord]
  have hread := Place.read_writeAt 0 v [] hends
  rw [List.append_nil] at hread
  rw [Value.ofText?, write, String.toList_ofList, hread]
  rfl

end CallSites.Json
