import Std.Data.HashMap
import CallSites.Text.Utf8

/-!
# Paired parentheses

Which `(` belongs to which `)` is decided once per text, by a single pass with a stack. Parentheses
inside string and character literals do not count: outside a literal a quote opens one; inside it a
backslash takes the next unit with it, whatever that is, and the literal ends at the same quote or
at the end of the line. Parentheses left over are in no pair.

The pass does not care what a text is made of, only what each unit *means* to it and how many bytes
it is wide, so it is written once for any alphabet. Texts are paired byte by byte; the alphabet of
characters is there to compare with.
-/

namespace CallSites

/-- The two kinds of literal. -/
inductive Quote where
  | single
  | double
  deriving Repr, DecidableEq

/-- What one unit of text means to the pairing pass. -/
inductive Sign where
  | quote (q : Quote)
  | backslash
  | lineEnd
  | opening
  | closing
  | plain
  deriving Repr, DecidableEq

/-- The sign of an ASCII code; every other code is plain. -/
def Sign.ofCode (n : Nat) : Sign :=
  if n = 0x22 then .quote .double
  else if n = 0x27 then .quote .single
  else if n = 0x5C then .backslash
  else if n = 0x0A then .lineEnd
  else if n = 0x28 then .opening
  else if n = 0x29 then .closing
  else .plain

/-- Units of text, each with its meaning and its width in bytes. -/
structure Alphabet (α : Type) where
  sign : α → Sign
  width : α → Nat

/-- Text as bytes. -/
def Alphabet.bytes : Alphabet UInt8 where
  sign b := .ofCode b.toNat
  width _ := 1

/-- Text as characters. -/
def Alphabet.characters : Alphabet Char where
  sign c := .ofCode c.toNat
  width c := c.utf8Size

/-- Where the pass stands: in code, in a literal, or in a literal right behind a backslash. -/
inductive Mode where
  | code
  | literal (q : Quote)
  | escaped (q : Quote)
  deriving Repr, DecidableEq

/-- The mode behind a unit. -/
def Mode.next : Mode → Sign → Mode
  | .code, .quote q => .literal q
  | .code, _ => .code
  | .literal q, .backslash => .escaped q
  | .literal _, .lineEnd => .code
  | .literal q, .quote q' => if q = q' then .code else .literal q
  | .literal q, _ => .literal q
  | .escaped q, _ => .literal q

namespace Pairing

/-- A pass under way. -/
structure State where
  /-- How many bytes are behind it. -/
  offset : Nat := 0
  mode : Mode := .code
  /-- The opening parentheses still waiting for a partner, the latest first. -/
  waiting : List Nat := []
  /-- The pairs found so far, the latest first. -/
  pairs : List (Nat × Nat) := []
  deriving Repr, DecidableEq

/-- The parentheses of one unit that stands in code. -/
def State.parentheses (s : State) : Sign → List Nat × List (Nat × Nat)
  | .opening => (s.offset :: s.waiting, s.pairs)
  | .closing =>
    match s.waiting with
    | [] => ([], s.pairs)
    | o :: waiting => (waiting, (o, s.offset) :: s.pairs)
  | _ => (s.waiting, s.pairs)

/-- The pass behind one more unit of the given meaning and width. -/
def State.step (s : State) (sign : Sign) (width : Nat) : State :=
  let (waiting, pairs) := if s.mode = .code then s.parentheses sign else (s.waiting, s.pairs)
  { offset := s.offset + width, mode := s.mode.next sign, waiting, pairs }

/-- The pass over a whole text. -/
def run {α : Type} (A : Alphabet α) (units : List α) : State :=
  units.foldl (fun s u ↦ s.step (A.sign u) (A.width u)) {}

/-- The pairs of a text in any alphabet, as byte offsets of `(` and `)`. -/
def pairsIn {α : Type} (A : Alphabet α) (units : List α) : List (Nat × Nat) :=
  (run A units).pairs

end Pairing

/-- The paired parentheses of a text, as byte offsets. -/
def pairs (text : List Char) : List (Nat × Nat) :=
  Pairing.pairsIn .bytes (Text.encode text)

/-- The partner of each paired opening parenthesis. -/
def partners (text : List Char) : Std.HashMap Nat Nat :=
  .ofList (pairs text)

end CallSites
