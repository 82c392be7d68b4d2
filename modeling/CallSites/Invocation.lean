import CallSites.Pairing
import CallSites.Text.Blank
import CallSites.Text.Offset

/-!
# Invocations

An *invocation* is a name, optional blanks and a parenthesised list: the shape that calls and
definitions share. Its *head*, the part up to and including the opening parenthesis, is found by
looking at characters alone, inside literals too; it becomes an invocation when the parenthesis has
a partner, which one inside a literal never has.

Heads never overlap, because a name is a maximal run of word characters. So all the invocations of a
text can be listed once, by increasing start, and looking for the next one in a window is a search
in that list.
-/

namespace CallSites

open Text

/-- A name and the opening parenthesis behind it. -/
structure Head where
  name : List Char
  /-- Offset of the first byte of the name. -/
  start : Nat
  /-- Offset of the parenthesis. -/
  lparen : Nat
  deriving Repr, DecidableEq

/-- The heads of a text whose first byte has offset `offset` and does not continue a name. -/
def headsFrom (offset : Nat) : List Char → List Head
  | [] => []
  | c :: cs =>
    if isWord c then
      let name := c :: cs.takeWhile isWord
      let behind := cs.dropWhile isWord
      let stop := offset + byteLength name
      match skipBlanks behind with
      | '(' :: _ =>
        { name, start := offset, lparen := stop + byteLength (behind.takeWhile isBlank) } ::
          headsFrom stop behind
      | _ => headsFrom stop behind
    else headsFrom (offset + c.utf8Size) cs
termination_by cs => cs.length
decreasing_by
  all_goals
    have hle := (List.dropWhile_suffix (l := cs) isWord).length_le
    rw [List.length_cons]
    omega

/-- The heads of a text, in order. -/
def heads (text : List Char) : List Head :=
  headsFrom 0 text

/-- A name with a parenthesised list behind it. -/
structure Invocation where
  name : String
  /-- Offset of the first byte of the name. -/
  start : Nat
  /-- Offset of the opening parenthesis. -/
  lparen : Nat
  /-- Offset just past the closing parenthesis. -/
  stop : Nat
  lparen_lt : lparen + 1 < stop := by omega
  start_lt : start < lparen := by omega
  deriving Repr, DecidableEq

/-- Offset of the closing parenthesis. -/
def Invocation.rparen (i : Invocation) : Nat :=
  i.stop - 1

/-- The invocation that begins with a head, if its parenthesis has a partner. -/
def Head.complete? (partner : Std.HashMap Nat Nat) (h : Head) : Option Invocation := do
  let rparen ← partner[h.lparen]?
  if hlt : h.lparen < rparen ∧ h.start < h.lparen then
    some { name := String.ofList h.name, start := h.start, lparen := h.lparen, stop := rparen + 1 }
  else none

/-- A text with all that is known about its invocations. -/
structure Index where
  text : List Char
  /-- Length of the text in bytes. -/
  size : Nat
  /-- The invocations of the text, by increasing start. -/
  invocations : List Invocation
  deriving Repr

/-- The index of a text. -/
def Index.ofText (text : List Char) : Index where
  text
  size := byteLength text
  invocations := (heads text).filterMap (Head.complete? (partners text))

namespace Index

/-- The first invocation that starts at or after `origin` and lies before `limit`. -/
def next (ix : Index) (origin limit : Nat) : Option Invocation :=
  ix.invocations.find? fun i ↦ decide (origin ≤ i.start) && decide (i.stop ≤ limit)

theorem le_start_of_next {ix : Index} {origin limit : Nat} {i : Invocation}
    (h : ix.next origin limit = some i) : origin ≤ i.start := by
  have hi := List.find?_some h
  rw [Bool.and_eq_true, decide_eq_true_iff, decide_eq_true_iff] at hi
  exact hi.1

theorem stop_le_of_next {ix : Index} {origin limit : Nat} {i : Invocation}
    (h : ix.next origin limit = some i) : i.stop ≤ limit := by
  have hi := List.find?_some h
  rw [Bool.and_eq_true, decide_eq_true_iff, decide_eq_true_iff] at hi
  exact hi.2

/-- Why a window of a text cannot be searched. -/
inductive BadLimit where
  /-- The window would end behind the text. -/
  | beyondText
  /-- The window would end inside a character. -/
  | insideCharacter
  deriving Repr, DecidableEq

/-- `next` for a limit from outside, which must be a boundary of the text. -/
def search (ix : Index) (origin limit : Nat) : Except BadLimit (Option Invocation) :=
  if ix.size < limit then .error .beyondText
  else if !isBoundary ix.text limit then .error .insideCharacter
  else .ok (ix.next origin limit)

/-- The text between an invocation's parentheses. -/
def arguments (ix : Index) (i : Invocation) : List Char :=
  slice ix.text (i.lparen + 1) i.rparen

/-- Whether `mark` is the first character behind an invocation that is not blank. -/
def followedBy (ix : Index) (i : Invocation) (mark : Char) : Bool :=
  (skipBlanks (dropBytes i.stop ix.text)).head? == some mark

end Index

/-! ## Nesting -/

/-- Invocations with what is nested in each, as first child and next sibling. -/
inductive Forest where
  | nil
  /-- An invocation, the forest between its parentheses, and the forest behind it. -/
  | cons (root : Invocation) (inside behind : Forest)
  deriving Repr, DecidableEq

namespace Forest

/-- The outermost invocations, in order. -/
def roots : Forest → List Invocation
  | nil => []
  | cons root _ behind => root :: behind.roots

/-- All invocations, each before what is nested in it. -/
def preorder : Forest → List Invocation
  | nil => []
  | cons root inside behind => root :: (inside.preorder ++ behind.preorder)

end Forest

namespace Index

/-- The invocations that start at or after `origin` and lie before `limit`, by nesting. -/
def forest (ix : Index) (origin limit : Nat) : Forest :=
  match h : ix.next origin limit with
  | none => .nil
  | some i => .cons i (ix.forest (i.lparen + 1) i.rparen) (ix.forest i.stop limit)
termination_by limit - origin
decreasing_by
  all_goals
    have hstart := le_start_of_next h
    have hstop := stop_le_of_next h
    have hlt := i.lparen_lt
    have hlt' := i.start_lt
  · rw [Invocation.rparen]
    omega
  · omega

/-- What is nested in an invocation. -/
def inside (ix : Index) (i : Invocation) : Forest :=
  ix.forest (i.lparen + 1) i.rparen

/-- The invocations nested directly in another. -/
def nested (ix : Index) (i : Invocation) : List Invocation :=
  (ix.inside i).roots

end Index

end CallSites
