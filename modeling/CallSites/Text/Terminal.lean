import CallSites.Text.Quoted

/-!
# Text for a terminal

A terminal takes some control characters for orders: to ring, to go back, to start a sequence that
moves the cursor or changes colours. A text from outside must not give orders when it is logged, so
these characters are written out. Line ends, tabs and the controls that terminals pass over stay.
-/

namespace CallSites.Text

/-- The ASCII characters that give orders: bell, backspace, form feed, escape and delete. -/
def orders : List Char :=
  ['\x07', '\x08', '\x0c', '\x1b', '\x7f']

/-- One character of a text, written out if it gives an order: by two hexadecimal digits in ASCII,
by its code point in the second block of controls. -/
def disarmedChar (c : Char) : List Char :=
  if orders.contains c then
    ['\\', 'x', Nat.digitChar (c.toNat / 16), Nat.digitChar (c.toNat % 16)]
  else if 0x80 ≤ c.toNat ∧ c.toNat ≤ 0x9F then writtenOut c
  else [c]

/-- A text that gives no orders. -/
def disarmed (s : String) : String :=
  String.ofList (s.toList.flatMap disarmedChar)

end CallSites.Text
