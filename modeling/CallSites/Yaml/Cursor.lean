import CallSites.Text.Offset

/-!
# Reading positions

Documents are read character by character, and a complaint about one names the line and the column
where the offending piece starts. A cursor is what is still to be read together with that place.
Five characters end a line; a carriage return and the line feed behind it end it together.
-/

namespace CallSites.Yaml

/-- A place in a document, counted from zero in characters. -/
structure Mark where
  line : Nat := 0
  column : Nat := 0
  deriving Repr, DecidableEq, Inhabited

/-- Why a text is not a document. -/
inductive Fault where
  | forbiddenCharacter
  | endInsideQuotes
  | documentMarkInsideQuotes
  | unknownEscape
  | badEscapeDigits
  | badEscapeValue
  | tabAsIndentation
  | unexpectedColon
  | missingColon
  | misplacedEntry
  | misplacedKey
  | misplacedValue
  | cannotStartToken
  | badDirective
  | badAnchor
  | badTag
  | badBlockHeader
  | badVersion
  | repeatedDirective
  | undefinedHandle
  | expectedDocumentStart
  | expectedNode
  | expectedItem
  | expectedKey
  | undefinedAlias
  | secondDocument
  | unfinished
  deriving Repr, DecidableEq

/-- A fault and its place. -/
structure SyntaxError where
  fault : Fault
  mark : Mark
  deriving Repr, DecidableEq

/-- What a fault is called. -/
def Fault.message : Fault → String
  | .forbiddenCharacter => "control characters are not allowed"
  | .endInsideQuotes => "found unexpected end of stream"
  | .documentMarkInsideQuotes => "found unexpected document indicator"
  | .unknownEscape => "found unknown escape character"
  | .badEscapeDigits => "did not find expected hexadecimal number"
  | .badEscapeValue => "found invalid Unicode character escape code"
  | .tabAsIndentation => "found a tab character where an indentation space is expected"
  | .unexpectedColon => "found unexpected ':'"
  | .missingColon => "could not find expected ':'"
  | .misplacedEntry => "block sequence entries are not allowed in this context"
  | .misplacedKey => "mapping keys are not allowed in this context"
  | .misplacedValue => "mapping values are not allowed in this context"
  | .cannotStartToken => "found character that cannot start any token"
  | .badDirective => "found a directive that cannot be read"
  | .badAnchor => "did not find expected alphabetic or numeric character"
  | .badTag => "did not find expected tag"
  | .badBlockHeader => "did not find expected comment or line break"
  | .badVersion => "found incompatible YAML document"
  | .repeatedDirective => "found duplicate directive"
  | .undefinedHandle => "found undefined tag handle"
  | .expectedDocumentStart => "did not find expected <document start>"
  | .expectedNode => "did not find expected node content"
  | .expectedItem => "did not find expected item of a collection"
  | .expectedKey => "did not find expected key"
  | .undefinedAlias => "unknown anchor"
  | .secondDocument => "more than one document"
  | .unfinished => "document is too long"

/-- A fault with its place, as shown. -/
def SyntaxError.message (e : SyntaxError) : String :=
  e.fault.message ++ " at line " ++ Nat.repr (e.mark.line + 1) ++ " column " ++
    Nat.repr (e.mark.column + 1)

/-! ## Characters -/

/-- Whether `c` may stand in a document. -/
def isAllowed (c : Char) : Bool :=
  let n := c.toNat
  n == 0x09 || n == 0x0A || n == 0x0D || (decide (0x20 ≤ n) && decide (n ≤ 0x7E)) || n == 0x85 ||
    (decide (0xA0 ≤ n) && decide (n ≤ 0xFFFD)) || decide (0x10000 ≤ n)

/-- Whether `c` ends a line. -/
def isBreak (c : Char) : Bool :=
  c == '\n' || c == '\r' || c == '\u0085' || c == '\u2028' || c == '\u2029'

/-- Whether `c` separates words on a line. -/
def isGap (c : Char) : Bool :=
  c == ' ' || c == '\t'

/-- Whether `c` is a gap or ends a line. -/
def isSeparator (c : Char) : Bool :=
  isGap c || isBreak c

/-- Whether a text is over or begins with a separator. -/
def atSeparator (cs : List Char) : Bool :=
  match cs with
  | [] => true
  | c :: _ => isSeparator c

/-- Whether `c` may stand in the name of an anchor, a handle or a directive. -/
def isNameChar (c : Char) : Bool :=
  c.isAlphanum || c == '_' || c == '-'

/-! ## Cursors -/

/-- What is still to be read, and where it starts. -/
structure Cursor where
  rest : List Char
  /-- How many bytes have been read. -/
  index : Nat := 0
  mark : Mark := {}

namespace Cursor

/-- The next character. -/
def peek? (c : Cursor) : Option Char :=
  c.rest.head?

/-- The cursor behind the next `n` characters of its line. -/
def skip (c : Cursor) (n : Nat) : Cursor :=
  { rest := c.rest.drop n, index := c.index + Text.byteLength (c.rest.take n),
    mark := { c.mark with column := c.mark.column + n } }

/-- The next characters of a class, none of which ends a line, and the cursor behind them. -/
def span (c : Cursor) (p : Char → Bool) : List Char × Cursor :=
  let taken := c.rest.takeWhile p
  (taken, c.skip taken.length)

/-- The cursor behind the next characters of a class, none of which ends a line. -/
def skipWhile (c : Cursor) (p : Char → Bool) : Cursor :=
  (c.span p).2

/-- The cursor behind a byte order mark, which any line may start with. It takes a column. -/
def skipOrderMark (c : Cursor) : Cursor :=
  if c.mark.column = 0 ∧ c.peek? = some '\uFEFF' then c.skip 1 else c

/-- The cursor behind a comment that starts here. -/
def skipComment (c : Cursor) : Cursor :=
  if c.peek? = some '#' then c.skipWhile (!isBreak ·) else c

/-- The cursor at the start of a line, `n` characters further on. -/
def nextLine (c : Cursor) (n : Nat) : Cursor :=
  { rest := c.rest.drop n, index := c.index + Text.byteLength (c.rest.take n),
    mark := { line := c.mark.line + 1, column := 0 } }

/-- The end of a line that stands here, as the text it counts for, and the cursor behind it. The two
separators stand for themselves, every other ending for a line feed. -/
def lineBreak (c : Cursor) : List Char × Cursor :=
  match c.rest with
  | '\r' :: '\n' :: _ => (['\n'], c.nextLine 2)
  | b :: _ =>
    if b == '\u2028' || b == '\u2029' then ([b], c.nextLine 1)
    else if isBreak b then (['\n'], c.nextLine 1)
    else ([], c)
  | [] => ([], c)

/-- Whether a line begins here with one of the marks between documents. -/
def atDocumentMark (c : Cursor) : Bool :=
  c.mark.column == 0 && (c.rest.take 3 == ['-', '-', '-'] || c.rest.take 3 == ['.', '.', '.']) &&
    atSeparator (c.rest.drop 3)

/-- A complaint about this place. -/
def fail {α : Type} (c : Cursor) (fault : Fault) : Except SyntaxError α :=
  .error ⟨fault, c.mark⟩

end Cursor

end CallSites.Yaml
