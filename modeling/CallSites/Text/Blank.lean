import CallSites.Text.Word

/-!
# Blank characters

The characters that may stand between a name and its parenthesis, between a closing parenthesis and
what follows it, and around the text of an empty settings file. These are the code points with the
white-space property, line separators included.
-/

namespace CallSites.Text

/-- White space above ASCII. -/
def blankRanges : List (Nat × Nat) :=
  [
    (0x0085, 0x0085), (0x00A0, 0x00A0), (0x1680, 0x1680), (0x2000, 0x200A), (0x2028, 0x2029),
    (0x202F, 0x202F), (0x205F, 0x205F), (0x3000, 0x3000)
  ]

/-- Whether `c` is white space. -/
def isBlank (c : Char) : Bool :=
  if c.toNat < 0x80 then c == ' ' || (decide (9 ≤ c.toNat) && decide (c.toNat ≤ 13))
  else inRanges blankRanges c.toNat

theorem isBlank_of_lt {c : Char} (h : c.toNat < 0x80) :
    isBlank c = (c == ' ' || (decide (9 ≤ c.toNat) && decide (c.toNat ≤ 13))) := by
  simp [isBlank, h]

/-- `cs` without its leading blanks. -/
def skipBlanks (cs : List Char) : List Char :=
  cs.dropWhile isBlank

end CallSites.Text
