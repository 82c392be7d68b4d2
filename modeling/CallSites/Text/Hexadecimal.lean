/-!
# Hexadecimal numbers

Escapes give a character by its number, in hexadecimal digits of either case.
-/

namespace CallSites.Text

/-- The value of a hexadecimal digit. -/
def hexValue? (c : Char) : Option Nat :=
  if c.isDigit then some (c.toNat - 0x30)
  else if 'a' ≤ c ∧ c ≤ 'f' then some (c.toNat - 0x57)
  else if 'A' ≤ c ∧ c ≤ 'F' then some (c.toNat - 0x37)
  else none

/-- The number written by hexadecimal digits. -/
def hexNumber? (cs : List Char) : Option Nat :=
  (cs.mapM hexValue?).map (·.foldl (fun n d ↦ 16 * n + d) 0)

end CallSites.Text
