/-!
# Decoding bytes

Source files are read as UTF-8 but need not be UTF-8. The decoder is a machine that takes one byte
at a time and knows how many continuation bytes the character it is reading still owes, and in which
range the next of them must lie. A byte outside that range ends the character as *damaged* and is
looked at again as the first byte of another one, so a damaged character never swallows a byte that
could begin a sound one.

Reading leniently puts the replacement character for each damaged one; reading strictly refuses a
text that has any.
-/

namespace CallSites.Text.Utf8

/-- Where the decoder stands between two bytes. -/
inductive State where
  /-- Between characters. -/
  | ready
  /-- Inside a character: `owed + 1` continuation bytes are still to come, the next between `low`
  and `high`, and `bits` have been gathered. -/
  | inside (owed : Nat) (low high : UInt8) (bits : Nat)
  deriving Repr, DecidableEq

/-- The decoder after the first byte of a character: what that byte completes, and the new state. A
damaged character is written `none`. -/
def start (b : UInt8) : List (Option Char) × State :=
  if b < 0x80 then ([some (Char.ofNat b.toNat)], .ready)
  else if b < 0xC2 then ([none], .ready)
  else if b < 0xE0 then ([], .inside 0 0x80 0xBF (b.toNat - 0xC0))
  else if b < 0xF0 then
    ([], .inside 1 (if b = 0xE0 then 0xA0 else 0x80) (if b = 0xED then 0x9F else 0xBF)
      (b.toNat - 0xE0))
  else if b < 0xF5 then
    ([], .inside 2 (if b = 0xF0 then 0x90 else 0x80) (if b = 0xF4 then 0x8F else 0xBF)
      (b.toNat - 0xF0))
  else ([none], .ready)

/-- The decoder after one more byte. -/
def step : State → UInt8 → List (Option Char) × State
  | .ready, b => start b
  | .inside owed low high bits, b =>
    if low ≤ b ∧ b ≤ high then
      let gathered := bits * 64 + (b.toNat - 0x80)
      match owed with
      | 0 => ([some (Char.ofNat gathered)], .ready)
      | owed + 1 => ([], .inside owed 0x80 0xBF gathered)
    else
      (none :: (start b).1, (start b).2)

/-- The decoder after a byte sequence: the characters made so far, damaged ones as `none`, and its
state. -/
def run (bytes : List UInt8) : Array (Option Char) × State :=
  bytes.foldl (fun (made, s) b ↦ (made ++ (step s b).1, (step s b).2)) (#[], .ready)

/-- The characters of a byte sequence; one that the end cuts short is damaged. -/
def characters (bytes : List UInt8) : List (Option Char) :=
  match run bytes with
  | (made, .ready) => made.toList
  | (made, .inside ..) => (made.push none).toList

end CallSites.Text.Utf8

namespace CallSites.Text

/-- What stands for a damaged character. -/
def replacement : Char := '\uFFFD'

/-- The text of a byte sequence, with the replacement character for each damaged one. -/
def decode (bytes : List UInt8) : List Char :=
  (Utf8.characters bytes).map (·.getD replacement)

/-- The text of a byte sequence that is sound UTF-8. -/
def decode? (bytes : List UInt8) : Option (List Char) :=
  (Utf8.characters bytes).mapM id

/-- The UTF-8 form of a text. -/
def encode (cs : List Char) : List UInt8 :=
  cs.flatMap String.utf8EncodeChar

end CallSites.Text
