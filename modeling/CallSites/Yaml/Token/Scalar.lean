import CallSites.Text.Hexadecimal
import CallSites.Yaml.Token

/-!
# Scalars

A scalar may run over several lines, and then its text is not what stands in the document: a single
line end between words becomes a blank, and of several the first is dropped. How this *folding*
works is shared by plain and quoted scalars; block scalars keep their lines, or fold them by a rule
of their own.

The rounds of each scan take at least one character, so as many rounds as there are characters left
are enough.
-/

namespace CallSites.Yaml

/-! ## Folding -/

/-- What separates two words of a scalar: blanks on one line, or line ends and all that is around
them. -/
inductive Separation where
  | blanks (text : List Char)
  /-- The text of the first line end, and that of all others. -/
  | breaks (first others : List Char)
  deriving Repr, DecidableEq

namespace Separation

/-- Whether a line ends in it. -/
def isBroken : Separation → Bool
  | blanks _ => false
  | breaks _ _ => true

/-- The text a separation stands for. -/
def fold : Separation → List Char
  | blanks text => text
  | breaks first others =>
    if first = ['\n'] then if others = [] then [' '] else others else first ++ others

/-- A separation continued as far as it goes. Behind a line end, a tab left of column `margin` is
refused. -/
def scan (margin : Nat) : Nat → Separation → Cursor → Except SyntaxError (Separation × Cursor)
  | 0, _, c => c.fail .unfinished
  | fuel + 1, s, c =>
    match c.peek? with
    | none => .ok (s, c)
    | some ch =>
      if isGap ch then
        match s with
        | blanks text => scan margin fuel (blanks (text ++ [ch])) (c.skip 1)
        | breaks _ _ =>
          if ch = '\t' ∧ c.mark.column < margin then c.fail .tabAsIndentation
          else scan margin fuel s (c.skip 1)
      else if isBreak ch then
        let (text, c) := c.lineBreak
        match s with
        | blanks _ => scan margin fuel (breaks text []) c
        | breaks first others => scan margin fuel (breaks first (others ++ text)) c
      else .ok (s, c)

end Separation

/-! ## Plain scalars -/

/-- The characters that structure flow collections. -/
def isFlowIndicator (c : Char) : Bool :=
  c == ',' || c == '[' || c == ']' || c == '\x7b' || c == '\x7d'

/-- One word of a plain scalar. Inside a flow collection a colon may not touch an indicator. -/
def plainWord (flow : Bool) : List Char → Option (List Char)
  | [] => some []
  | c :: cs =>
    if isSeparator c then some []
    else if flow && c == ':' && cs.head?.any (fun d ↦ isFlowIndicator d || d == '?') then none
    else if (c == ':' && atSeparator cs) || (flow && isFlowIndicator c) then some []
    else (plainWord flow cs).map (c :: ·)

/-- The words of a plain scalar from here on. Outside flow collections it ends before a line that is
indented less than `margin`. The answer tells whether a line end was read behind the last word. -/
def plainScalar (flow : Bool) (margin : Nat) :
    Nat → List Char → Separation → Cursor → Except SyntaxError (List Char × Bool × Cursor)
  | 0, _, _, c => c.fail .unfinished
  | fuel + 1, text, sep, c =>
    if c.atDocumentMark || c.peek? == some '#' then .ok (text, sep.isBroken, c)
    else
      match plainWord flow c.rest with
      | none => c.fail .unexpectedColon
      | some word => do
        let (text, sep) := if word = [] then (text, sep) else (text ++ sep.fold ++ word, .blanks [])
        let c := c.skip word.length
        if c.rest = [] ∨ !atSeparator c.rest then .ok (text, sep.isBroken, c)
        else
          let (sep, c) ← Separation.scan margin (c.rest.length + 1) (.blanks []) c
          if !flow && decide (c.mark.column < margin) then .ok (text, sep.isBroken, c)
          else plainScalar flow margin fuel text sep c

/-! ## Quoted scalars -/

/-- The character that a backslash and a letter stand for. -/
def escapeLetter (c : Char) : Option Char :=
  match c with
  | '0' => some '\x00'
  | 'a' => some '\x07'
  | 'b' => some '\x08'
  | 't' => some '\t'
  | '\t' => some '\t'
  | 'n' => some '\n'
  | 'v' => some '\x0b'
  | 'f' => some '\x0c'
  | 'r' => some '\r'
  | 'e' => some '\x1b'
  | ' ' => some ' '
  | '"' => some '"'
  | '/' => some '/'
  | '\\' => some '\\'
  | 'N' => some '\u0085'
  | '_' => some '\u00a0'
  | 'L' => some '\u2028'
  | 'P' => some '\u2029'
  | _ => none

/-- How many hexadecimal digits follow a backslash and a letter. -/
def escapeDigits (c : Char) : Option Nat :=
  match c with
  | 'x' => some 2
  | 'u' => some 4
  | 'U' => some 8
  | _ => none

/-- An escape that starts at a backslash: its character, and the cursor behind it. -/
def escape (c : Cursor) : Except SyntaxError (Char × Cursor) :=
  match c.rest with
  | _ :: letter :: digits =>
    match escapeLetter letter, escapeDigits letter with
    | some ch, _ => .ok (ch, c.skip 2)
    | none, some n =>
      if digits.length < n then c.fail .badEscapeDigits
      else
        match Text.hexNumber? (digits.take n) with
        | none => c.fail .badEscapeDigits
        | some v =>
          if v.isValidChar then .ok (Char.ofNat v, c.skip (2 + n)) else c.fail .badEscapeValue
    | none, none => c.fail .unknownEscape
  | _ => c.fail .unknownEscape

/-- One word of a quoted scalar, up to its closing quote or a separator. The answer tells whether it
ended at a line end behind a backslash, which is then read. -/
def quotedWord (style : Style) :
    Nat → List Char → Cursor → Except SyntaxError (List Char × Bool × Cursor)
  | 0, _, c => c.fail .unfinished
  | fuel + 1, word, c =>
    match style, c.rest with
    | _, [] => .ok (word, false, c)
    | .singleQuoted, '\x27' :: '\x27' :: _ => quotedWord style fuel (word ++ ['\x27']) (c.skip 2)
    | .singleQuoted, '\x27' :: _ => .ok (word, false, c)
    | .doubleQuoted, '"' :: _ => .ok (word, false, c)
    | .doubleQuoted, '\\' :: b :: _ =>
      if isBreak b then .ok (word, true, (c.skip 1).lineBreak.2)
      else do
        let (ch, c) ← escape c
        quotedWord style fuel (word ++ [ch]) c
    | .doubleQuoted, ['\\'] => c.fail .unknownEscape
    | _, ch :: _ =>
      if isSeparator ch then .ok (word, false, c)
      else quotedWord style fuel (word ++ [ch]) (c.skip 1)

/-- The words of a quoted scalar from behind its opening quote, and the cursor at its closing quote.
-/
def quotedScalar (style : Style) :
    Nat → List Char → Cursor → Except SyntaxError (List Char × Cursor)
  | 0, _, c => c.fail .unfinished
  | fuel + 1, text, c => do
    if c.atDocumentMark then c.fail .documentMarkInsideQuotes
    else if c.rest = [] then c.fail .endInsideQuotes
    else
      let (word, broken, c) ← quotedWord style (c.rest.length + 1) [] c
      let closing := if style = .singleQuoted then '\x27' else '"'
      if c.peek? = some closing then .ok (text ++ word, c)
      else
        let sep : Separation := if broken then .breaks [] [] else .blanks []
        let (sep, c) ← sep.scan 0 (c.rest.length + 1) c
        quotedScalar style fuel (text ++ word ++ sep.fold) c

/-! ## Block scalars -/

/-- What happens to the line ends behind the last line of a block scalar. -/
inductive Chomping where
  | strip
  | clip
  | keep
  deriving Repr, DecidableEq

/-- The head of a block scalar: its chomping and the indentation it asks for, zero for none. -/
def blockHead (c : Cursor) : Except SyntaxError (Chomping × Nat × Cursor) :=
  let sign? (c : Cursor) : Option Chomping :=
    match c.peek? with
    | some '+' => some .keep
    | some '-' => some .strip
    | _ => none
  let digit? (c : Cursor) : Except SyntaxError (Option Nat) :=
    match c.peek? with
    | some '0' => c.fail .badBlockHeader
    | some d => .ok (if d.isDigit then some (d.toNat - 0x30) else none)
    | none => .ok none
  match sign? c with
  | some chomping => do
    let c := c.skip 1
    match ← digit? c with
    | some n => .ok (chomping, n, c.skip 1)
    | none => .ok (chomping, 0, c)
  | none => do
    match ← digit? c with
    | some n =>
      let c := c.skip 1
      match sign? c with
      | some chomping => .ok (chomping, n, c.skip 1)
      | none => .ok (.clip, n, c)
    | none => .ok (.clip, 0, c)

/-- The indentation and the empty lines before the next line of a block scalar. With `indent` zero
the indentation is still open, and the deepest one seen decides. -/
def blockBreaks (indent : Nat) :
    Nat → Nat → List Char → Cursor → Except SyntaxError (Nat × List Char × Cursor)
  | 0, _, _, c => c.fail .unfinished
  | fuel + 1, deepest, breaks, c =>
    let blanks := c.rest.takeWhile (· == ' ')
    let n := if indent = 0 then blanks.length else min blanks.length (indent - c.mark.column)
    let c := c.skip n
    let deepest := max deepest c.mark.column
    match c.peek? with
    | none => .ok (deepest, breaks, c)
    | some ch =>
      if ch = '\t' ∧ (indent = 0 ∨ c.mark.column < indent) then c.fail .tabAsIndentation
      else if isBreak ch then
        let (text, c) := c.lineBreak
        blockBreaks indent fuel deepest (breaks ++ text) c
      else .ok (deepest, breaks, c)

/-- The lines of a block scalar from here on. `ending` is the end of the line before, `breaks` the
empty lines behind it, and `deep` whether that line began with a gap. -/
def blockLines (style : Style) (indent : Nat) :
    Nat → List Char → List Char → List Char → Bool → Cursor →
      Except SyntaxError (List Char × List Char × List Char × Cursor)
  | 0, _, _, _, _, c => c.fail .unfinished
  | fuel + 1, text, ending, breaks, deep, c =>
    if c.mark.column ≠ indent ∨ c.rest = [] then .ok (text, ending, breaks, c)
    else do
      let deepHere := c.peek?.any isGap
      let joint :=
        if style = .folded && ending == ['\n'] && !deep && !deepHere then
          if breaks = [] then [' '] else []
        else ending
      let (line, c) := c.span (!isBreak ·)
      let (ending, c) := c.lineBreak
      let (_, nextBreaks, c) ← blockBreaks indent (c.rest.length + 1) 0 [] c
      blockLines style indent fuel (text ++ joint ++ breaks ++ line) ending nextBreaks deepHere c

/-- A block scalar from behind its indicator on, inside a collection indented by `parent`. -/
def blockScalar (style : Style) (parent : Int) (c : Cursor) :
    Except SyntaxError (List Char × Cursor) := do
  let (chomping, increment, c) ← blockHead c
  let c := (c.skipWhile isGap).skipComment
  if !c.peek?.all isBreak then c.fail .badBlockHeader
  else
    let (_, c) := c.lineBreak
    let asked := if increment = 0 then 0 else (max parent 0).toNat + increment
    let (deepest, breaks, c) ← blockBreaks asked (c.rest.length + 1) 0 [] c
    let indent := if asked = 0 then max deepest (max (parent + 1).toNat 1) else asked
    let (text, ending, breaks, c) ←
      blockLines style indent (c.rest.length + 1) [] [] breaks false c
    let ending := if chomping = .strip then [] else ending
    let breaks := if chomping = .keep then breaks else []
    .ok (text ++ ending ++ breaks, c)

end CallSites.Yaml
