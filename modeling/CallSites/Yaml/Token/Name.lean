import CallSites.Text.Utf8
import CallSites.Yaml.Token.Scalar

/-!
# Anchors, tags and directives

The tokens that name things: anchors and aliases, tags with their handles, and the directives before
a document.
-/

namespace CallSites.Yaml

/-- The name of an anchor or alias from behind its indicator on. -/
def anchorName (c : Cursor) : Except SyntaxError (String × Cursor) :=
  let (name, c) := c.span isNameChar
  let ends (ch : Char) : Bool := isSeparator ch || "?:,]\x7d%@\x60".toList.contains ch
  if name = [] ∨ !c.peek?.all ends then c.fail .badAnchor
  else .ok (String.ofList name, c)

/-! ## Tags -/

/-- Whether `c` may stand in a tag; the wider class is for tags between angle brackets. -/
def isTagChar (wide : Bool) (c : Char) : Bool :=
  isNameChar c || ";/?:@&=+$.%!~*\x27()".toList.contains c || (wide && ",[]".toList.contains c)

/-- The number of bytes in a character that begins with a byte. -/
def byteCount? (b : Nat) : Option Nat :=
  if b < 0x80 then some 1
  else if b < 0xC0 then none
  else if b < 0xE0 then some 2
  else if b < 0xF0 then some 3
  else if b < 0xF8 then some 4
  else none

/-- One byte of a tag, written as a percent sign and two digits. -/
def percentByte? : List Char → Option (Nat × List Char)
  | '%' :: a :: b :: cs => do
    let n ← Text.hexNumber? [a, b]
    return (n, cs)
  | _ => none

/-- Continuation bytes of a tag. -/
def percentTail? : Nat → List Char → Option (List Nat × List Char)
  | 0, cs => some ([], cs)
  | n + 1, cs => do
    let (b, cs) ← percentByte? cs
    if b < 0x80 ∨ 0xC0 ≤ b then none
    else
      let (bs, cs) ← percentTail? n cs
      return (b :: bs, cs)

/-- The text of a tag with its written-out bytes put back. -/
def unpercent? : Nat → List Char → Option (List Char)
  | 0, _ => none
  | _ + 1, [] => some []
  | fuel + 1, '%' :: cs => do
    let (b, cs) ← percentByte? ('%' :: cs)
    let n ← byteCount? b
    let (bs, cs) ← percentTail? (n - 1) cs
    let rest ← unpercent? fuel cs
    return Text.decode ((b :: bs).map UInt8.ofNat) ++ rest
  | fuel + 1, c :: cs => (unpercent? fuel cs).map (c :: ·)

/-- The part of a tag that counts: what stands before a null character, if one is written in it. -/
def tagText (body : List Char) : String :=
  String.ofList (body.takeWhile (· != '\x00'))

/-- The body of a tag. -/
def tagBody (wide : Bool) (c : Cursor) : Except SyntaxError (List Char × Cursor) :=
  let (written, behind) := c.span (isTagChar wide)
  match unpercent? (written.length + 1) written with
  | some body => .ok (body, behind)
  | none => c.fail .badTag

/-- A handle: an exclamation mark, and perhaps a name and a second one. -/
def tagHandle (c : Cursor) : Except SyntaxError (List Char × Cursor) :=
  if c.peek? = some '!' then
    let (name, c) := (c.skip 1).span isNameChar
    if c.peek? = some '!' then .ok ('!' :: name ++ ['!'], c.skip 1) else .ok ('!' :: name, c)
  else c.fail .badTag

/-- A tag that starts here, as its handle and its suffix. -/
def tagToken (flow : Bool) (c : Cursor) : Except SyntaxError (Token × Cursor) := do
  let (token, c) ←
    if (c.rest.drop 1).head? = some '<' then do
      let (body, c) ← tagBody true (c.skip 2)
      if body = [] ∨ c.peek? ≠ some '>' then c.fail .badTag
      else .ok (Token.tag "" (tagText body), c.skip 1)
    else do
      let (handle, c) ← tagHandle c
      if handle.length > 1 && handle.getLast? == some '!' then do
        let (body, c) ← tagBody false c
        if body = [] then c.fail .badTag
        else .ok (Token.tag (String.ofList handle) (tagText body), c)
      else do
        let (body, c) ← tagBody false c
        let suffix := tagText (handle.drop 1 ++ body)
        if suffix = "" then .ok (Token.tag "" "!", c) else .ok (Token.tag "!" suffix, c)
  if (flow && c.peek? == some ',') || atSeparator c.rest then .ok (token, c) else c.fail .badTag

/-! ## Directives -/

/-- A number of at most nine digits. -/
def versionNumber (c : Cursor) : Except SyntaxError (Nat × Cursor) :=
  let (digits, behind) := c.span Char.isDigit
  if digits = [] ∨ 9 < digits.length then c.fail .badDirective
  else .ok (digits.foldl (fun n d ↦ 10 * n + (d.toNat - 0x30)) 0, behind)

/-- A directive from behind its percent sign on. -/
def directive (c : Cursor) : Except SyntaxError (Token × Cursor) := do
  let (name, c) := c.span isNameChar
  if name = [] ∨ !atSeparator c.rest then c.fail .badDirective
  let c := c.skipWhile isGap
  let (token, c) ←
    if name = ['Y', 'A', 'M', 'L'] then do
      let (major, c) ← versionNumber c
      if c.peek? ≠ some '.' then c.fail .badDirective
      let (minor, c) ← versionNumber (c.skip 1)
      pure (Token.version major minor, c)
    else if name = ['T', 'A', 'G'] then do
      let (handle, c) ← tagHandle c
      if handle.length > 1 && handle.getLast? != some '!' then c.fail .badDirective
      if !c.peek?.any isGap then c.fail .badDirective
      let (body, c) ← tagBody true (c.skipWhile isGap)
      if body = [] ∨ !atSeparator c.rest then c.fail .badDirective
      pure (Token.handle (String.ofList handle) (tagText body), c)
    else c.fail .badDirective
  let c := (c.skipWhile isGap).skipComment
  if c.peek?.all isBreak then .ok (token, c.lineBreak.2) else c.fail .badDirective

end CallSites.Yaml
