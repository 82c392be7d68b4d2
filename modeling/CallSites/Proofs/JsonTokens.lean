import Mathlib.Data.List.TakeWhile
import CallSites.Decimal
import CallSites.Json
import CallSites.Text.Hexadecimal

/-!
# The tokens of a JSON text

A report in JSON is for programs that know the standard and not the writer. So that it can be said
what such a program finds in a text, this module and the next define the reading of JSON on its own,
as the standard has it: blanks between any two tokens, every escape a string may contain, numbers
with a sign, a fraction and an exponent, and the values that no report uses. What the writer does is
not consulted.

Reading takes two stages. Here a text is cut into tokens: marks, strings, and *words*, which are
numbers and the names of the three values that have one. A string ends at its quote, but a word ends
only where something else begins, so the cutting carries along the word it is in. A written string
is read back whatever follows it, and a written count whatever follows it that ends a word.
-/

namespace CallSites.Json

/-! ## Numbers -/

/-- Whether a number without its sign is spelled as the standard asks: with no needless zero in
front, and with digits on both sides of a point. -/
def isSpelledOut (cs : List Char) : Bool :=
  let whole := cs.takeWhile Char.isDigit
  let part := cs.dropWhile Char.isDigit
  (whole == ['0'] || (whole != [] && whole.head? != some '0')) &&
    (part.head? != some '.' || part.tail.head?.any Char.isDigit)

/-- The number that a word spells. -/
def readNumber (cs : List Char) : Option Decimal :=
  let unsigned := if cs.head? = some '-' then cs.tail else cs
  if isSpelledOut unsigned then Decimal.read? cs else none

theorem read?_of_digits {cs : List Char} (hne : cs ≠ []) (h : ∀ c ∈ cs, c.isDigit = true) :
    Decimal.read? cs = some ⟨false, Decimal.ofDigits cs, 0⟩ := by
  have htake : cs.takeWhile Char.isDigit = cs := List.takeWhile_eq_self_iff.mpr h
  have hdrop : cs.dropWhile Char.isDigit = [] := List.dropWhile_eq_nil_iff.mpr h
  obtain ⟨c, cs, rfl⟩ := List.exists_cons_of_ne_nil hne
  have hplus : c ≠ '+' := by rintro rfl; simpa using h '+'
  have hminus : c ≠ '-' := by rintro rfl; simpa using h '-'
  unfold Decimal.read?
  split
  next negative unsigned hsign =>
    -- neither sign is a digit, so all of the text is the unsigned part
    obtain ⟨rfl, rfl⟩ : false = negative ∧ c :: cs = unsigned := by
      simpa [hplus, hminus] using hsign
    rw [htake, hdrop]
    dsimp only
    rw [List.append_nil]
    rfl

/-- Digits without a needless zero are a number, and it has neither sign nor exponent. -/
theorem readNumber_of_digits {cs : List Char} (hne : cs ≠ [])
    (hzero : cs = ['0'] ∨ cs.head? ≠ some '0') (h : ∀ c ∈ cs, c.isDigit = true) :
    readNumber cs = some ⟨false, Decimal.ofDigits cs, 0⟩ := by
  have htake : cs.takeWhile Char.isDigit = cs := List.takeWhile_eq_self_iff.mpr h
  have hdrop : cs.dropWhile Char.isDigit = [] := List.dropWhile_eq_nil_iff.mpr h
  have hspelled : isSpelledOut cs = true := by
    rcases hzero with rfl | hzero
    · decide
    · simp [isSpelledOut, htake, hdrop, hne, hzero]
  have hminus : cs.head? ≠ some '-' := by
    intro hhead
    simpa using h '-' (List.mem_of_mem_head? hhead)
  rw [readNumber, if_neg hminus, if_pos hspelled, read?_of_digits hne h]

theorem isDigit_of_mem_toDigits_ten {n : Nat} : ∀ c ∈ Nat.toDigits 10 n, c.isDigit = true :=
  fun _ hc ↦ Nat.isDigit_of_mem_toDigits (by decide) (by decide) hc

theorem head?_toDigits_ne_zero {n : Nat} (h : 0 < n) :
    (Nat.toDigits 10 n).head? ≠ some '0' := by
  induction n using Nat.base_induction 10 (by decide) with
  | single m hm =>
    rw [Nat.toDigits_of_lt_base hm]
    simpa using Nat.ne_of_gt h
  | digit m k hk hm ih =>
    rw [← Nat.toDigits_append_toDigits (by decide) hm hk, List.head?_append]
    simpa [Nat.toDigits_ne_nil, List.head?_eq_none_iff] using ih hm

/-- The digits of a count spell it. -/
theorem readNumber_toDigits (n : Nat) :
    readNumber (Nat.toDigits 10 n) = some ⟨false, n, 0⟩ := by
  have hzero : Nat.toDigits 10 n = ['0'] ∨ (Nat.toDigits 10 n).head? ≠ some '0' := by
    rcases Nat.eq_zero_or_pos n with rfl | hn
    · exact .inl (Nat.toDigits_zero 10)
    · exact .inr (head?_toDigits_ne_zero hn)
  have hvalue : Decimal.ofDigits (Nat.toDigits 10 n) = n := Nat.ofDigitChars_ten_toDigits
  rw [readNumber_of_digits Nat.toDigits_ne_nil hzero isDigit_of_mem_toDigits_ten, hvalue]

/-! ## Pieces of strings -/

/-- A piece of a string: a character, or a half of one that takes two units of UTF-16. -/
inductive Piece where
  | char (c : Char)
  | half (n : Nat)
  deriving Repr, DecidableEq

/-- What a unit of UTF-16 stands for. -/
def Piece.ofUnit (n : Nat) : Piece :=
  if n.isValidChar then .char (Char.ofNat n) else .half n

theorem Piece.ofUnit_toNat (c : Char) : ofUnit c.toNat = char c := by
  have hvalid : c.toNat.isValidChar := c.valid
  rw [ofUnit, if_pos hvalid, Char.ofNat_toNat]

/-- The characters that pieces add up to. Each first half is followed by a second half, and no
second half stands alone. -/
def joinPieces : List Piece → Option (List Char)
  | [] => some []
  | .char c :: ps => (joinPieces ps).map (c :: ·)
  | .half m :: .half n :: ps =>
    if m < 0xDC00 ∧ 0xDC00 ≤ n then
      (joinPieces ps).map (Char.ofNat (0x10000 + 0x400 * (m - 0xD800) + (n - 0xDC00)) :: ·)
    else none
  | .half _ :: _ => none

theorem joinPieces_map_char (cs : List Char) : joinPieces (cs.map .char) = some cs := by
  induction cs with
  | nil => rfl
  | cons c cs ih => simp [joinPieces, ih]

/-- The character that a letter stands for behind a backslash. -/
def unescape? (c : Char) : Option Char :=
  match c with
  | '"' => some '"'
  | '\\' => some '\\'
  | '/' => some '/'
  | 'b' => some '\x08'
  | 'f' => some '\x0c'
  | 'n' => some '\n'
  | 'r' => some '\r'
  | 't' => some '\t'
  | _ => none

theorem hexValue?_hexDigit {n : Nat} (h : n < 16) : Text.hexValue? (hexDigit n) = some n := by
  decide +revert

theorem hexNumber?_hexDigits {n : Nat} (h : n < 256) :
    Text.hexNumber? ['0', '0', hexDigit (n / 16), hexDigit (n % 16)] = some n := by
  have hzero : Text.hexValue? '0' = some 0 := by decide
  have hhigh : Text.hexValue? (hexDigit (n / 16)) = some (n / 16) := hexValue?_hexDigit (by omega)
  have hlow : Text.hexValue? (hexDigit (n % 16)) = some (n % 16) := hexValue?_hexDigit (by omega)
  have hsum : 16 * (n / 16) + n % 16 = n := by omega
  simp [Text.hexNumber?, hzero, hhigh, hlow, hsum]

/-! ## Cutting a text -/

/-- The marks that give a text its structure. -/
inductive Mark where
  | beginArray
  | endArray
  | beginObject
  | endObject
  | nameSeparator
  | valueSeparator
  deriving Repr, DecidableEq

/-- The tokens of a text. -/
inductive Token where
  | mark (m : Mark)
  | string (s : String)
  | number (d : Decimal)
  | bool (b : Bool)
  | null
  deriving Repr, DecidableEq

/-- The token that a word is. -/
def Token.ofWord? (cs : List Char) : Option Token :=
  match cs with
  | ['t', 'r', 'u', 'e'] => some (.bool true)
  | ['f', 'a', 'l', 's', 'e'] => some (.bool false)
  | ['n', 'u', 'l', 'l'] => some .null
  | _ => (readNumber cs).map .number

/-- What a character does outside strings. -/
inductive Role where
  | quote
  | blank
  | mark (m : Mark)
  | letter
  deriving Repr, DecidableEq

/-- What `c` does outside strings. -/
def role (c : Char) : Role :=
  match c with
  | '"' => .quote
  | ' ' | '\t' | '\n' | '\r' => .blank
  | '[' => .mark .beginArray
  | ']' => .mark .endArray
  | '\x7b' => .mark .beginObject
  | '\x7d' => .mark .endObject
  | ':' => .mark .nameSeparator
  | ',' => .mark .valueSeparator
  | _ => .letter

/-- The tokens `ts` with the word before them, whose letters are given in reverse. Without letters
there is no word. -/
def endWord (word : List Char) (ts : List Token) : Option (List Token) :=
  if word = [] then some ts else (Token.ofWord? word.reverse).map (· :: ts)

@[simp] theorem endWord_nil (ts : List Token) : endWord [] ts = some ts := rfl

mutual

/-- The tokens of a text that continues the word with the letters `word`, given in reverse. -/
def tokensFrom (word : List Char) : List Char → Option (List Token)
  | [] => endWord word []
  | c :: cs =>
    match role c with
    | .letter => tokensFrom (c :: word) cs
    | .blank => do endWord word (← tokensFrom [] cs)
    | .mark m => do endWord word (.mark m :: (← tokensFrom [] cs))
    | .quote => do
      let (ps, ts) ← quotedFrom cs
      endWord word (.string (String.ofList (← joinPieces ps)) :: ts)

/-- The pieces of the string that a text begins in, and the tokens behind it. -/
def quotedFrom : List Char → Option (List Piece × List Token)
  | '"' :: cs => (tokensFrom [] cs).map ([], ·)
  | '\\' :: 'u' :: a :: b :: c :: d :: cs => do
    let n ← Text.hexNumber? [a, b, c, d]
    (quotedFrom cs).map (Prod.map (.ofUnit n :: ·) id)
  | '\\' :: c :: cs => do
    let c ← unescape? c
    (quotedFrom cs).map (Prod.map (.char c :: ·) id)
  | c :: cs =>
    if 0x20 ≤ c.toNat then (quotedFrom cs).map (Prod.map (.char c :: ·) id) else none
  | [] => none

end

/-- The tokens of a text, if there is nothing but tokens and blanks in it. -/
def tokens (cs : List Char) : Option (List Token) :=
  tokensFrom [] cs

example : tokens " \"\\uD83D\\ude00\\/\" ,-0.25e+3\ttrue".toList =
    some [.string "😀/", .mark .valueSeparator, .number ⟨true, 25, 1⟩, .bool true] := by decide

example : ∀ text ∈ ["\"", "\"\n\"", "\"\\x\"", "\"\\ud83d\"", "nul", "01", "1.", ".5", "+1", "1e"],
    tokens text.toList = none := by decide

theorem tokens_cons_of_blank {c : Char} (h : role c = .blank) (cs : List Char) :
    tokens (c :: cs) = tokens cs := by
  rw [tokens, tokensFrom, h]
  simp [tokens]

theorem tokens_cons_of_mark {c : Char} {m : Mark} (h : role c = .mark m) (cs : List Char) :
    tokens (c :: cs) = (tokens cs).map (.mark m :: ·) := by
  rw [tokens, tokensFrom, h]
  cases htokens : tokensFrom [] cs <;> simp [tokens, htokens]

/-! ## Written strings -/

theorem quotedFrom_cons_plain {c : Char} (hquote : c ≠ '"') (hback : c ≠ '\\')
    (hcontrol : 0x20 ≤ c.toNat) (cs : List Char) :
    quotedFrom (c :: cs) = (quotedFrom cs).map (Prod.map (.char c :: ·) id) := by
  rw [quotedFrom, if_pos hcontrol]
  · exact hquote
  · rintro _ _ _ _ _ rfl
    exact absurd rfl hback
  · rintro _ _ rfl
    exact absurd rfl hback

/-- However a character is escaped, it is read as itself. -/
theorem quotedFrom_escapeChar (c : Char) (cs : List Char) :
    quotedFrom (escapeChar c ++ cs) = (quotedFrom cs).map (Prod.map (.char c :: ·) id) := by
  unfold escapeChar
  split
  case h_8 hquote hback _ _ _ _ _ =>
    split
    case isTrue hcontrol =>
      have hnumber := hexNumber?_hexDigits (Nat.lt_trans hcontrol (by decide))
      simp [quotedFrom, hnumber, Piece.ofUnit_toNat]
    case isFalse hcontrol => exact quotedFrom_cons_plain hquote hback (Nat.not_lt.mp hcontrol) cs
  all_goals simp [quotedFrom, unescape?]

theorem quotedFrom_flatMap_escapeChar (s cs : List Char) :
    quotedFrom (s.flatMap escapeChar ++ '"' :: cs) = (tokens cs).map (s.map .char, ·) := by
  induction s with
  | nil => rw [List.flatMap_nil, List.nil_append, quotedFrom, tokens, List.map_nil]
  | cons c s ih =>
    rw [List.flatMap_cons, List.append_assoc, quotedFrom_escapeChar, ih]
    simp [Option.map_map, Function.comp_def]

/-- **A written string is one token**, whatever its characters are and whatever follows it. -/
theorem tokens_writeString (s : String) (rest : List Char) :
    tokens (writeString s ++ rest) = (tokens rest).map (.string s :: ·) := by
  have hwritten : writeString s ++ rest = '"' :: (s.toList.flatMap escapeChar ++ '"' :: rest) := by
    simp [writeString]
  have hquote : role '"' = .quote := rfl
  rw [hwritten, tokens, tokensFrom, hquote]
  simp only [quotedFrom_flatMap_escapeChar]
  cases tokens rest <;> simp [joinPieces_map_char]

/-! ## Written counts -/

/-- No word goes on with the text. -/
def EndsWord (cs : List Char) : Prop :=
  ∀ c ∈ cs.head?, role c ≠ .letter

theorem tokensFrom_of_endsWord (word : List Char) {rest : List Char} (h : EndsWord rest) :
    tokensFrom word rest = (tokens rest).bind (endWord word) := by
  cases rest with
  | nil => simp [tokens, tokensFrom]
  | cons c cs =>
    rw [tokens, tokensFrom, tokensFrom]
    cases hc : role c with
    | letter => exact absurd hc (h c rfl)
    | blank => simp
    | mark m => simp [Option.bind_assoc]
    | quote => simp [Option.bind_assoc]

theorem tokensFrom_append_of_letters {cs : List Char} (h : ∀ c ∈ cs, role c = .letter)
    (word rest : List Char) :
    tokensFrom word (cs ++ rest) = tokensFrom (cs.reverse ++ word) rest := by
  induction cs generalizing word with
  | nil => rfl
  | cons c cs ih =>
    rw [List.cons_append, tokensFrom, h c List.mem_cons_self]
    simp [ih fun c hc ↦ h c (List.mem_cons_of_mem _ hc)]

theorem role_of_isDigit {c : Char} (h : c.isDigit = true) : role c = .letter := by
  unfold role
  split <;> simp_all

theorem ofWord?_toDigits (n : Nat) :
    Token.ofWord? (Nat.toDigits 10 n) = some (.number ⟨false, n, 0⟩) := by
  have hdigits := isDigit_of_mem_toDigits_ten (n := n)
  unfold Token.ofWord?
  split
  case h_4 => rw [readNumber_toDigits, Option.map_some]
  all_goals simp_all

/-- **A written count is one token**, if what follows it ends a word. -/
theorem tokens_toDigits (n : Nat) {rest : List Char} (h : EndsWord rest) :
    tokens (Nat.toDigits 10 n ++ rest) = (tokens rest).map (.number ⟨false, n, 0⟩ :: ·) := by
  have hletters : ∀ c ∈ Nat.toDigits 10 n, role c = .letter := fun c hc ↦
    role_of_isDigit (isDigit_of_mem_toDigits_ten c hc)
  rw [tokens, tokensFrom_append_of_letters hletters, tokensFrom_of_endsWord _ h]
  cases tokens rest with
  | none => rfl
  | some ts => simp [endWord, ofWord?_toDigits, Nat.toDigits_ne_nil]

end CallSites.Json
