/-!
# JSON text

JSON values as far as reports need them, with numbers that count things, and the one way in which
they are written: a member or an item to a line, two blanks deeper than what encloses it, and an
empty list or object as a bare pair of brackets.
-/

namespace CallSites

/-- A JSON value whose numbers are counts. The members of an object keep their order. -/
inductive Json where
  | number (n : Nat)
  | string (s : String)
  | array (items : List Json)
  | object (members : List (String × Json))

namespace Json

/-- A hexadecimal digit, in lower case. -/
def hexDigit (n : Nat) : Char :=
  if n < 10 then Char.ofNat (0x30 + n) else Char.ofNat (0x57 + n)

/-- One character of a string: quotes, backslashes and controls are escaped, all else stands for
itself. -/
def escapeChar (c : Char) : List Char :=
  match c with
  | '"' => ['\\', '"']
  | '\\' => ['\\', '\\']
  | '\x08' => ['\\', 'b']
  | '\x0c' => ['\\', 'f']
  | '\n' => ['\\', 'n']
  | '\r' => ['\\', 'r']
  | '\t' => ['\\', 't']
  | _ =>
    if c.toNat < 0x20 then
      ['\\', 'u', '0', '0', hexDigit (c.toNat / 16), hexDigit (c.toNat % 16)]
    else [c]

/-- A string with its quotes. -/
def writeString (s : String) : List Char :=
  '"' :: s.toList.flatMap escapeChar ++ ['"']

/-- The beginning of a line at the given depth. -/
def freshLine (depth : Nat) : List Char :=
  '\n' :: List.replicate (2 * depth) ' '

mutual

/-- A value that stands at the given depth. -/
def writeAt (depth : Nat) : Json → List Char
  | number n => Nat.toDigits 10 n
  | string s => writeString s
  | array [] => ['[', ']']
  | array (v :: vs) =>
    '[' :: (freshLine (depth + 1) ++ writeAt (depth + 1) v ++ writeItems (depth + 1) vs ++
      freshLine depth ++ [']'])
  | object [] => ['\x7b', '\x7d']
  | object ((key, v) :: ms) =>
    '\x7b' :: (freshLine (depth + 1) ++ writeString key ++ [':', ' '] ++ writeAt (depth + 1) v ++
      writeMembers (depth + 1) ms ++ freshLine depth ++ ['\x7d'])

/-- The items of a list behind the first. -/
def writeItems (depth : Nat) : List Json → List Char
  | [] => []
  | v :: vs => ',' :: (freshLine depth ++ writeAt depth v ++ writeItems depth vs)

/-- The members of an object behind the first. -/
def writeMembers (depth : Nat) : List (String × Json) → List Char
  | [] => []
  | (key, v) :: ms =>
    ',' :: (freshLine depth ++ writeString key ++ [':', ' '] ++ writeAt depth v ++
      writeMembers depth ms)

end

/-- The text of a value. -/
def write (v : Json) : String :=
  String.ofList (v.writeAt 0)

end Json

end CallSites
