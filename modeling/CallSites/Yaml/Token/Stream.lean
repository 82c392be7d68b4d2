import CallSites.Yaml.Token.Name

/-!
# The tokens of a text

Two things make the token stream more than a list of lexemes. Indentation opens and closes block
collections. And a key is only known for one when the colon behind it is read: until then the place
of a possible key is remembered, and when the colon comes, the tokens that announce it are put in
there. A possible key must be on one line and not too long, and one that stands where only a key can
stand must turn out to be one.
-/

namespace CallSites.Yaml

/-- A place where a key may have started. -/
structure PossibleKey where
  /-- Whether nothing but a key can stand there. -/
  required : Bool
  /-- How many tokens stand before it. -/
  position : Nat
  /-- How many bytes stand before it. -/
  index : Nat
  mark : Mark
  deriving Repr, DecidableEq

/-- The furthest a key may be from its colon, in bytes. -/
def keyReach : Nat := 1024

/-- A text being cut into tokens. -/
structure Lexer where
  cursor : Cursor
  tokens : Array Placed := #[]
  /-- The indentation of the innermost block collection, `-1` outside any. -/
  indent : Int := -1
  /-- The indentations around it, the innermost first. -/
  outer : List Int := []
  /-- How many flow collections are open. -/
  depth : Nat := 0
  /-- For each open flow collection, the innermost first, and then for the block around them: the
  key that may have started. -/
  keys : List (Option PossibleKey) := [none]
  /-- Whether a key may start here. -/
  keyAllowed : Bool := true

namespace Lexer

/-- Whether a flow collection is open. -/
def inFlow (s : Lexer) : Bool :=
  s.depth != 0

/-- The current column. -/
def column (s : Lexer) : Nat :=
  s.cursor.mark.column

/-- One more token, from the current place to where `c` stands. -/
def emit (s : Lexer) (token : Token) (c : Cursor) : Lexer :=
  { s with tokens := s.tokens.push ⟨token, s.cursor.mark, c.mark⟩, cursor := c }

/-- One more token, of `n` characters. -/
def emitSkip (s : Lexer) (token : Token) (n : Nat) : Lexer :=
  s.emit token (s.cursor.skip n)

/-! ## Indentation -/

/-- A block collection is opened if `column` is deeper than what encloses it; the token that
announces it goes to `position`. -/
def openBlock (s : Lexer) (column : Nat) (position : Nat) (token : Token) (mark : Mark) : Lexer :=
  if !s.inFlow && decide (s.indent < column) then
    { s with
      indent := column, outer := s.indent :: s.outer,
      tokens := s.tokens.insertIdxIfInBounds position ⟨token, mark, mark⟩ }
  else s

/-- Closes the block collections deeper than `column`. -/
def closeBlocks (s : Lexer) (column : Int) : Lexer :=
  if s.inFlow then s
  else
    let depths := s.indent :: s.outer
    let closed := depths.takeWhile (column < ·)
    let mark := s.cursor.mark
    match depths.drop closed.length with
    | [] => s
    | indent :: outer =>
      { s with
        indent, outer,
        tokens := s.tokens ++ closed.map fun _ ↦ (⟨.blockEnd, mark, mark⟩ : Placed) }

/-! ## Keys -/

/-- Gives up the key that may have started in the innermost collection. -/
def dropKey (s : Lexer) : Except SyntaxError Lexer :=
  match s.keys with
  | some key :: keys =>
    if key.required then .error ⟨.missingColon, key.mark⟩ else .ok { s with keys := none :: keys }
  | _ => .ok s

/-- Gives up every key whose line is over or that is out of reach. -/
def dropStaleKeys (s : Lexer) : Except SyntaxError Lexer := do
  let keys ← s.keys.mapM fun
    | some key =>
      if key.mark.line < s.cursor.mark.line ∨ key.index + keyReach < s.cursor.index then
        if key.required then .error ⟨.missingColon, key.mark⟩ else .ok none
      else .ok (some key)
    | none => .ok none
  .ok { s with keys }

/-- Remembers that a key may start here. -/
def saveKey (s : Lexer) : Except SyntaxError Lexer :=
  if s.keyAllowed then do
    let required := !s.inFlow && decide (s.indent = s.column)
    let s ← s.dropKey
    let key : PossibleKey :=
      { required, position := s.tokens.size, index := s.cursor.index, mark := s.cursor.mark }
    .ok { s with keys := some key :: s.keys.drop 1 }
  else .ok s

/-! ## Single tokens -/

/-- Whatever stands between tokens is passed over. A line end outside flow collections allows a key;
tabs count as gaps only where no key may start. -/
def skipGaps : Nat → Lexer → Lexer
  | 0, s => s
  | fuel + 1, s =>
    let isGapHere (c : Char) : Bool := c == ' ' || ((s.inFlow || !s.keyAllowed) && c == '\t')
    let c := (s.cursor.skipOrderMark.skipWhile isGapHere).skipComment
    if c.peek?.any isBreak then
      skipGaps fuel { s with cursor := c.lineBreak.2, keyAllowed := s.keyAllowed || !s.inFlow }
    else { s with cursor := c }

/-- A mark between documents, or a directive: all blocks are closed and no key is left. -/
def atTop (s : Lexer) : Except SyntaxError Lexer := do
  let s ← (s.closeBlocks (-1)).dropKey
  .ok { s with keyAllowed := false }

/-- The start of a flow collection. -/
def openFlow (s : Lexer) (token : Token) : Except SyntaxError Lexer := do
  let s ← s.saveKey
  .ok ({ s with keys := none :: s.keys, depth := s.depth + 1, keyAllowed := true }.emitSkip token 1)

/-- The end of a flow collection. -/
def closeFlow (s : Lexer) (token : Token) : Except SyntaxError Lexer := do
  let s ← s.dropKey
  let s := if s.inFlow then { s with keys := s.keys.drop 1, depth := s.depth - 1 } else s
  .ok ({ s with keyAllowed := false }.emitSkip token 1)

/-- A comma between the items of a flow collection. -/
def flowEntry (s : Lexer) : Except SyntaxError Lexer := do
  let s ← s.dropKey
  .ok ({ s with keyAllowed := true }.emitSkip .flowEntry 1)

/-- A block collection opened here by an indicator. -/
def openHere (s : Lexer) (token : Token) (fault : Fault) : Except SyntaxError Lexer :=
  if s.inFlow then .ok s
  else if s.keyAllowed then .ok (s.openBlock s.column s.tokens.size token s.cursor.mark)
  else s.cursor.fail fault

/-- A dash before an item of a block sequence. -/
def blockEntry (s : Lexer) : Except SyntaxError Lexer := do
  let s ← (← s.openHere .blockSequence .misplacedEntry).dropKey
  .ok ({ s with keyAllowed := true }.emitSkip .blockEntry 1)

/-- A question mark before a key. -/
def keyMark (s : Lexer) : Except SyntaxError Lexer := do
  let s ← (← s.openHere .blockMapping .misplacedKey).dropKey
  .ok ({ s with keyAllowed := !s.inFlow }.emitSkip .key 1)

/-- A colon before a value. If a key may have started before it, it did. -/
def valueMark (s : Lexer) : Except SyntaxError Lexer :=
  match s.keys with
  | some key :: keys =>
    let s :=
      { s with
        keys := none :: keys,
        tokens := s.tokens.insertIdxIfInBounds key.position ⟨.key, key.mark, key.mark⟩ }
    let s := s.openBlock key.mark.column key.position .blockMapping key.mark
    .ok ({ s with keyAllowed := false }.emitSkip .value 1)
  | _ => do
    let s ← s.openHere .blockMapping .misplacedValue
    .ok ({ s with keyAllowed := !s.inFlow }.emitSkip .value 1)

/-- A token that may itself be, or begin, a key. -/
def keyLike (s : Lexer) (read : Lexer → Except SyntaxError (Token × Bool × Cursor)) :
    Except SyntaxError Lexer := do
  let s ← s.saveKey
  let (token, keyAllowed, c) ← read s
  .ok ({ s with keyAllowed }.emit token c)

/-- A block scalar, which is never a key. -/
def blockScalar (s : Lexer) (style : Style) : Except SyntaxError Lexer := do
  let s ← s.dropKey
  let (text, c) ← Yaml.blockScalar style s.indent (s.cursor.skip 1)
  .ok ({ s with keyAllowed := true }.emit (.scalar style (String.ofList text)) c)

/-- A quoted scalar. -/
def quotedScalar (s : Lexer) (style : Style) : Except SyntaxError Lexer :=
  s.keyLike fun s ↦ do
    let (text, c) ← Yaml.quotedScalar style (s.cursor.rest.length + 1) [] (s.cursor.skip 1)
    .ok (.scalar style (String.ofList text), false, c.skip 1)

/-- A plain scalar. -/
def plainScalar (s : Lexer) : Except SyntaxError Lexer :=
  s.keyLike fun s ↦ do
    let (text, broken, c) ←
      Yaml.plainScalar s.inFlow (s.indent + 1).toNat (s.cursor.rest.length + 1) [] (.blanks [])
        s.cursor
    .ok (.scalar .plain (String.ofList text), broken, c)

/-- The characters that cannot begin a plain scalar, unless an exception says so. -/
def isIndicator (c : Char) : Bool :=
  "-?:,[]\x7b\x7d#&*!|>\x27\"%@\x60".toList.contains c

/-- The token that starts at the cursor, which is not at the end and not in a gap. -/
def next (s : Lexer) (ch : Char) (behind : List Char) : Except SyntaxError Lexer :=
  let flow := s.inFlow
  let apart := atSeparator behind
  if s.column == 0 && ch == '%' then do
    let s ← s.atTop
    let (token, c) ← directive (s.cursor.skip 1)
    .ok (s.emit token c)
  else if s.cursor.atDocumentMark then do
    .ok ((← s.atTop).emitSkip (if ch == '-' then .documentStart else .documentEnd) 3)
  else if ch == '[' then s.openFlow .flowSequence
  else if ch == '\x7b' then s.openFlow .flowMapping
  else if ch == ']' then s.closeFlow .flowSequenceEnd
  else if ch == '\x7d' then s.closeFlow .flowMappingEnd
  else if ch == ',' then s.flowEntry
  else if ch == '-' && apart then s.blockEntry
  else if ch == '?' && (flow || apart) then s.keyMark
  else if ch == ':' && (flow || apart) then s.valueMark
  else if ch == '*' then
    s.keyLike fun s ↦ do
      let (name, c) ← anchorName (s.cursor.skip 1)
      .ok (.reference name, false, c)
  else if ch == '&' then
    s.keyLike fun s ↦ do
      let (name, c) ← anchorName (s.cursor.skip 1)
      .ok (.anchor name, false, c)
  else if ch == '!' then
    s.keyLike fun s ↦ do
      let (token, c) ← tagToken s.inFlow s.cursor
      .ok (token, false, c)
  else if ch == '|' && !flow then s.blockScalar .literal
  else if ch == '>' && !flow then s.blockScalar .folded
  else if ch == '\x27' then s.quotedScalar .singleQuoted
  else if ch == '"' then s.quotedScalar .doubleQuoted
  else if !isIndicator ch && !isSeparator ch then s.plainScalar
  else if ch == '-' && !behind.head?.any isGap then s.plainScalar
  else if !flow && (ch == '?' || ch == ':') && !apart then s.plainScalar
  else s.cursor.fail .cannotStartToken

/-- The end of the text, which counts as the start of a line. -/
def finish (s : Lexer) : Except SyntaxError Lexer := do
  let mark := s.cursor.mark
  let mark := if mark.column = 0 then mark else { line := mark.line + 1, column := 0 }
  let s ← { s with cursor := { s.cursor with mark } }.atTop
  .ok (s.emit .streamEnd s.cursor)

/-- Cuts what is left of a text into tokens; each round takes at least one character. -/
def run : Nat → Lexer → Except SyntaxError Lexer
  | 0, s => s.cursor.fail .unfinished
  | fuel + 1, s => do
    let s ← (skipGaps (s.cursor.rest.length + 1) s).dropStaleKeys
    let s := s.closeBlocks s.column
    match s.cursor.rest with
    | [] => s.finish
    | ch :: behind => run fuel (← s.next ch behind)

end Lexer

/-- The tokens of a text. -/
def tokens (text : List Char) : Except SyntaxError (List Placed) :=
  if text.all isAllowed then do
    let s ← Lexer.run (text.length + 1) { cursor := { rest := text } }
    .ok s.tokens.toList
  else .error ⟨.forbiddenCharacter, {}⟩

end CallSites.Yaml
