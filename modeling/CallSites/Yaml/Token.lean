import CallSites.Yaml.Cursor

/-!
# Tokens

The pieces a document is made of. Indentation does not reach the grammar: where it opens or closes a
collection, a token says so.
-/

namespace CallSites.Yaml

/-- How a scalar is written. -/
inductive Style where
  | plain
  | singleQuoted
  | doubleQuoted
  | literal
  | folded
  deriving Repr, DecidableEq

/-- A piece of a document. -/
inductive Token where
  | version (major minor : Nat)
  | handle (name expansion : String)
  | documentStart
  | documentEnd
  | streamEnd
  | blockSequence
  | blockMapping
  | blockEnd
  | flowSequence
  | flowSequenceEnd
  | flowMapping
  | flowMappingEnd
  | blockEntry
  | flowEntry
  | key
  | value
  | reference (name : String)
  | anchor (name : String)
  | tag (handle suffix : String)
  | scalar (style : Style) (text : String)
  deriving Repr, DecidableEq

/-- A token with the places where it starts and ends. -/
structure Placed where
  token : Token
  start : Mark
  stop : Mark
  deriving Repr, DecidableEq

end CallSites.Yaml
