/-!
# Decimal fractions

A number in a document may be a decimal fraction. It is then taken for the double-precision number
nearest to it, and shown by the fewest digits that are nearer to that number than to any other. All
of this is exact arithmetic on natural numbers.
-/

namespace CallSites

/-- The number `digits * 10 ^ exponent`, with its sign. -/
structure Decimal where
  negative : Bool
  digits : Nat
  exponent : Int
  deriving Repr, DecidableEq

namespace Decimal

/-- The number written by decimal digits. -/
def ofDigits (cs : List Char) : Nat :=
  cs.foldl (fun n c ↦ 10 * n + (c.toNat - 0x30)) 0

/-- An exponent from behind its letter on. -/
def readExponent (cs : List Char) : Option Int :=
  let (negative, cs) :=
    match cs with
    | '+' :: cs => (false, cs)
    | '-' :: cs => (true, cs)
    | cs => (false, cs)
  if cs = [] ∨ !cs.all Char.isDigit then none
  else if negative then some (-(ofDigits cs : Int)) else some (ofDigits cs)

/-- Reads digits with an optional sign, an optional point among or around them, and an optional
exponent. -/
def read? (cs : List Char) : Option Decimal := do
  let (negative, cs) :=
    match cs with
    | '+' :: cs => (false, cs)
    | '-' :: cs => (true, cs)
    | cs => (false, cs)
  let whole := cs.takeWhile Char.isDigit
  let cs := cs.dropWhile Char.isDigit
  let (part, cs) :=
    match cs with
    | '.' :: cs => (cs.takeWhile Char.isDigit, cs.dropWhile Char.isDigit)
    | cs => ([], cs)
  guard (whole ≠ [] ∨ part ≠ [])
  let exponent ←
    match cs with
    | [] => some 0
    | c :: cs => if c = 'e' ∨ c = 'E' then readExponent cs else none
  return { negative, digits := ofDigits (whole ++ part), exponent := exponent - part.length }

end Decimal

/-- The double-precision number `mantissa * 2 ^ exponent`, with its sign. -/
structure Binary where
  negative : Bool
  mantissa : Nat
  exponent : Int
  deriving Repr, DecidableEq

/-- The integer nearest to a quotient; a tie goes to the even one. -/
def roundDiv (num den : Nat) : Nat :=
  let q := num / den
  let r := num % den
  if 2 * r < den then q else if den < 2 * r then q + 1 else q + q % 2

/-- The double-precision number nearest to a decimal, unless that is infinite. -/
def Decimal.toBinary? (d : Decimal) : Option Binary :=
  let zero : Binary := { negative := d.negative, mantissa := 0, exponent := 0 }
  if d.digits = 0 then some zero
  else
    let top : Int := (Nat.toDigits 10 d.digits).length + d.exponent
    if 310 < top then none
    else if top < -330 then some zero
    else
      let num := d.digits * Nat.pow 10 d.exponent.toNat
      let den := Nat.pow 10 (-d.exponent).toNat
      let guess : Int := (Nat.log2 num : Int) - Nat.log2 den
      let high :=
        if num * Nat.pow 2 (-guess).toNat < den * Nat.pow 2 guess.toNat then guess - 1 else guess
      let exponent := max (high - 52) (-1074)
      let mantissa := roundDiv (num * Nat.pow 2 (-exponent).toNat) (den * Nat.pow 2 exponent.toNat)
      let (mantissa, exponent) :=
        if mantissa = Nat.pow 2 53 then (Nat.pow 2 52, exponent + 1) else (mantissa, exponent)
      if 971 < exponent then none else some { negative := d.negative, mantissa, exponent }

namespace Binary

/-- The place of the first digit: the least `k` with `num / den < 10 ^ k`, for a positive quotient.
-/
def leadingPlace (num den : Nat) : Int :=
  if den ≤ num then (Nat.toDigits 10 (num / den)).length
  else
    match (List.range 400).find? fun j ↦ decide (den ≤ num * Nat.pow 10 (j + 1)) with
    | some j => -(j : Int)
    | none => 0

/-- A decimal with `n` digits that reads back as a positive number, if there is one; of two the
nearer, and at equal distance the greater. -/
def withDigits? (b : Binary) (n : Nat) : Option Decimal :=
  let scale := Nat.pow 2 b.exponent.toNat
  let den := 4 * Nat.pow 2 (-b.exponent).toNat
  let value := 4 * b.mantissa * scale
  let below := if b.mantissa = Nat.pow 2 52 ∧ -1074 < b.exponent then 1 else 2
  let low := (4 * b.mantissa - below) * scale
  let high := (4 * b.mantissa + 2) * scale
  let exponent := leadingPlace value den - n
  let up := Nat.pow 10 (-exponent).toNat
  let unit := den * Nat.pow 10 exponent.toNat
  let readsBack (digits : Nat) : Bool :=
    if b.mantissa % 2 = 0 then
      decide (low * up ≤ digits * unit) && decide (digits * unit ≤ high * up)
    else decide (low * up < digits * unit) && decide (digits * unit < high * up)
  let down := value * up / unit
  let nearest := if 2 * (value * up - down * unit) < unit then down else down + 1
  let other := 2 * down + 1 - nearest
  (([nearest, other].filter readsBack).head?).map fun digits ↦
    { negative := b.negative, digits, exponent }

/-- The decimal with the fewest digits that reads back as a number. -/
def shortest (b : Binary) : Decimal :=
  if b.mantissa = 0 then { negative := b.negative, digits := 0, exponent := 0 }
  else
    ((List.range 17).findSome? fun n ↦ b.withDigits? (n + 1)).getD
      { negative := b.negative, digits := 0, exponent := 0 }

end Binary

/-- A decimal without exponent, with a point and at least one digit on either side of it. -/
def Decimal.write (d : Decimal) : String :=
  let digits := Nat.toDigits 10 d.digits
  let sign := if d.negative then ['-'] else []
  let places := (-d.exponent).toNat
  let digits := digits ++ List.replicate d.exponent.toNat '0'
  let digits := List.replicate (places + 1 - digits.length) '0' ++ digits
  let whole := digits.take (digits.length - places)
  let part := ((digits.drop (digits.length - places)).reverse.dropWhile (· == '0')).reverse
  String.ofList (sign ++ whole ++ ['.'] ++ if part = [] then ['0'] else part)

end CallSites
