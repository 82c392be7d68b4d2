/-!
# Words that are not functions

Control constructs and casts have the shape of calls. Control words are a setting, since a project
may have macros that behave like them; the names of types and of the operators on types are fixed,
and are never recorded as calls.
-/

namespace CallSites

/-- The names that are neither declared nor called. -/
structure Keywords where
  words : List String
  deriving Repr, DecidableEq

/-- Whether `name` is excluded. -/
def Keywords.contains (k : Keywords) (name : String) : Bool :=
  k.words.contains name

/-- The control words of C that may stand before a parenthesis. -/
def controlWords : List String :=
  ["if", "while", "for", "switch", "else", "return"]

/-- The control words are excluded unless a setting says otherwise. -/
instance : Inhabited Keywords := ⟨⟨controlWords⟩⟩

/-- Type names and operators on types, which stand before parentheses in casts, in the types of
function pointers and in size expressions. -/
def typeOperators : List String :=
  ["void", "char", "short", "int", "long", "float", "double", "signed", "unsigned", "const",
    "volatile", "struct", "union", "enum", "sizeof", "_Alignof", "alignof"]

/-- Whether `name` is a type name or an operator on types. -/
def isTypeOperator (name : String) : Bool :=
  typeOperators.contains name

end CallSites
