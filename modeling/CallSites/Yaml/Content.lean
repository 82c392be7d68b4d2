import CallSites.Decimal
import CallSites.Text.Quoted
import CallSites.Yaml.Document

/-!
# What a node holds

A complaint about a node names the kind of thing it holds. A plain scalar without a tag is nothing,
a truth value, an integer, a fraction or a text, in this order of preference; a quoted one is always
a text. Some tags insist on a kind, and then a scalar that is not of that kind is a value of the
wrong form.
-/

namespace CallSites.Yaml

/-- What a node holds. -/
inductive Content where
  | nothing
  | boolean (b : Bool)
  | integer (n : Int)
  /-- An integer that needs more than 64 bits. -/
  | wideInteger (n : Int)
  /-- A fraction, as it is shown. -/
  | fraction (shown : String)
  | text (s : String)
  | sequence
  | mapping
  deriving Repr, DecidableEq

/-- How a complaint names what a node holds. -/
def Content.describe : Content → String
  | .nothing => "unit value"
  | .boolean b => "boolean `" ++ (if b then "true" else "false") ++ "`"
  | .integer n => "integer `" ++ toString n ++ "`"
  | .wideInteger n =>
    "integer `" ++ toString n ++ "` as " ++ (if n < 0 then "i128" else "u128")
  | .fraction shown => "floating point `" ++ shown ++ "`"
  | .text s => "string " ++ Text.quoted s
  | .sequence => "sequence"
  | .mapping => "map"

/-! ## Numbers -/

/-- The number written by digits in a base up to sixteen. -/
def baseNumber? (base : Nat) (cs : List Char) : Option Nat := do
  guard (cs ≠ [])
  let digits ← cs.mapM Text.hexValue?
  guard (digits.all (· < base))
  return digits.foldl (fun n d ↦ base * n + d) 0

/-- Whether a text begins with a sign. -/
def signed (cs : List Char) : Bool :=
  cs.head?.any fun c ↦ c == '+' || c == '-'

/-- Whether a text is decimal digits with needless zeros before them, which makes it no number. -/
def isPadded (cs : List Char) : Bool :=
  let cs := if signed cs then cs.drop 1 else cs
  match cs with
  | '0' :: d :: ds => (d :: ds).all Char.isDigit
  | _ => false

/-- The magnitude of an integer without its sign: decimal, or in one of three bases named in front.
-/
def magnitude? (cs : List Char) : Option Nat :=
  match cs with
  | '0' :: 'x' :: ds => baseNumber? 16 ds
  | '0' :: 'o' :: ds => baseNumber? 8 ds
  | '0' :: 'b' :: ds => baseNumber? 2 ds
  | cs => if isPadded cs then none else baseNumber? 10 cs

/-- The integer that a plain scalar is taken for. -/
def integer? (s : String) : Option Content :=
  match s.toList with
  | '-' :: cs => do
    let n ← magnitude? cs
    if n ≤ Nat.pow 2 63 then some (.integer (-(n : Int)))
    else if n ≤ Nat.pow 2 127 then some (.wideInteger (-(n : Int)))
    else none
  | cs => do
    let n ← magnitude? (if cs.head? = some '+' then cs.drop 1 else cs)
    if n < Nat.pow 2 64 then some (.integer n)
    else if n < Nat.pow 2 128 then some (.wideInteger n)
    else none

/-- The fraction that a plain scalar is taken for. -/
def fraction? (s : String) : Option Content := do
  let cs := s.toList
  let unsigned := if cs.head? = some '+' then cs.drop 1 else cs
  guard !(cs.head? == some '+' && signed unsigned)
  let word := String.ofList unsigned
  if [".inf", ".Inf", ".INF"].contains word then some (.fraction "inf")
  else if ["-.inf", "-.Inf", "-.INF"].contains s then some (.fraction "-inf")
  else if [".nan", ".NaN", ".NAN"].contains s then some (.fraction "NaN")
  else
    let number ← (← Decimal.read? unsigned).toBinary?
    return .fraction number.shortest.write

/-! ## Scalars -/

/-- The truth value that a plain scalar is taken for. -/
def boolean? (s : String) : Option Content :=
  if ["true", "True", "TRUE"].contains s then some (.boolean true)
  else if ["false", "False", "FALSE"].contains s then some (.boolean false)
  else none

/-- Nothing, written out. -/
def null? (s : String) : Option Content :=
  if ["null", "Null", "NULL", "~"].contains s then some .nothing else none

/-- What a plain scalar without a tag holds. -/
def plainContent (s : String) : Content :=
  if s = "" then .nothing
  else
    (null? s <|> boolean? s <|> integer? s <|>
      (if isPadded s.toList then none else fraction? s)).getD (.text s)

/-- A kind that a tag insists on: what it is called, and how a scalar of it is read. -/
def insisted (tag : String) : Option (String × (String → Option Content)) :=
  match tag with
  | "tag:yaml.org,2002:bool" => some ("a boolean", boolean?)
  | "tag:yaml.org,2002:int" => some ("an integer", integer?)
  | "tag:yaml.org,2002:float" => some ("a float", fraction?)
  | "tag:yaml.org,2002:null" => some ("null", null?)
  | _ => none

/-- What a scalar holds, or the kind that its tag asks for in vain. -/
def scalarContent (tag : Option String) (style : Style) (s : String) : Except String Content :=
  match tag with
  | none => .ok (if style = .plain then plainContent s else .text s)
  | some tag =>
    match insisted tag with
    | some (kind, read?) =>
      match read? s with
      | some content => .ok content
      | none => .error kind
    | none => .ok (if tag.startsWith "!" && style = .plain then plainContent s else .text s)

end CallSites.Yaml
