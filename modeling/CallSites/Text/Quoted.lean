import CallSites.Text.Printing

/-!
# Quoted text in messages

A message that names a text from outside shows it between double quotes, with everything written out
that could not be seen there.
-/

namespace CallSites.Text

/-- `c` by its code point in lower-case hexadecimal: `\u`, then the digits between braces. -/
def writtenOut (c : Char) : List Char :=
  ['\\', 'u', '\x7b'] ++ Nat.toDigits 16 c.toNat ++ ['\x7d']

/-- One character of a quoted text. -/
def quotedChar (c : Char) : List Char :=
  match c with
  | '\x00' => ['\\', '0']
  | '\t' => ['\\', 't']
  | '\r' => ['\\', 'r']
  | '\n' => ['\\', 'n']
  | '\\' => ['\\', '\\']
  | '"' => ['\\', '"']
  | _ => if shows c then [c] else writtenOut c

/-- `s` between double quotes, every character visible. -/
def quoted (s : String) : String :=
  String.ofList ('"' :: s.toList.flatMap quotedChar ++ ['"'])

end CallSites.Text
