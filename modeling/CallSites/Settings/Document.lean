import CallSites.Settings
import CallSites.Text.Blank
import CallSites.Yaml.Content

/-!
# Settings in a document

Settings are written as a mapping from the names of lists to lists of texts. A name that is left out
keeps its default, and a name without a value stands for the empty list. Whatever a scalar looks
like, its text counts where a text is wanted.

A document that is in order but does not describe settings is refused with the reason, the place
inside the settings and the place in the text.
-/

namespace CallSites

open Yaml

/-- The lists of the settings. -/
inductive Field where
  | ignoredDirs
  | extensions
  | excludedKeywords
  deriving Repr, DecidableEq

namespace Field

/-- What a list is called in a document. -/
def name : Field → String
  | ignoredDirs => "ignored_dirs"
  | extensions => "extensions"
  | excludedKeywords => "excluded_keywords"

/-- All lists, in the order in which a complaint names them. -/
def all : List Field :=
  [ignoredDirs, extensions, excludedKeywords]

/-- The list of a given name. -/
def ofName? (name : String) : Option Field :=
  all.find? (·.name == name)

end Field

/-- What a document can be told to be about. -/
inductive Refusal where
  | wrongKind (found : Content) (expected : String)
  | wrongForm (text expected : String)
  | unknownField (name : String)
  | repeatedField (field : Field)
  deriving Repr, DecidableEq

/-- Where in the settings a document is refused. -/
inductive Place where
  | whole
  | list (label : String)
  | item (label : String) (index : Nat)
  deriving Repr, DecidableEq

/-- Why a well-formed document does not describe settings. -/
structure Problem where
  refusal : Refusal
  place : Place
  mark : Mark
  deriving Repr, DecidableEq

/-- The wording of a refusal. -/
def Refusal.message : Refusal → String
  | .wrongKind found expected => "invalid type: " ++ found.describe ++ ", expected " ++ expected
  | .wrongForm text expected =>
    "invalid value: " ++ (Content.text text).describe ++ ", expected " ++ expected
  | .unknownField name =>
    "unknown field `" ++ name ++ "`, expected one of " ++
      String.intercalate ", " (Field.all.map fun f ↦ "`" ++ f.name ++ "`")
  | .repeatedField field => "duplicate field `" ++ field.name ++ "`"

/-- How a place is written before a refusal. -/
def Place.lead : Place → String
  | .whole => ""
  | .list label => label ++ ": "
  | .item label index => label ++ "[" ++ Nat.repr index ++ "]: "

/-- The wording of a problem; the very start of a text is not named. -/
def Problem.message (p : Problem) : String :=
  p.place.lead ++ p.refusal.message ++
    if p.mark = {} then ""
    else " at line " ++ Nat.repr (p.mark.line + 1) ++ " column " ++ Nat.repr (p.mark.column + 1)

/-- The refusal of a node that is not what is expected. -/
def refusal (node : Node Nat) (expected : String) : Refusal :=
  match node with
  | .scalar p style text =>
    match scalarContent p.tag style text with
    | .ok found => .wrongKind found expected
    | .error kind => .wrongForm text kind
  | .sequence _ _ => .wrongKind .sequence expected
  | .mapping _ _ => .wrongKind .mapping expected
  | .reference _ _ => .wrongKind .nothing expected

/-- The problem of a node that is not what is expected. -/
def refuse {α : Type} (node : Node Nat) (place : Place) (expected : String) : Except Problem α :=
  .error { refusal := refusal node expected, place, mark := node.mark }

/-- Whether a node is a value that is left out. -/
def isAbsent : Node Nat → Bool
  | .scalar _ .plain text => text == ""
  | _ => false

/-- The text of a node. -/
def readText (d : Document) (place : Place) (expected : String) (node : Node Nat) :
    Except Problem String :=
  match d.follow node with
  | .scalar _ _ text => .ok text
  | other => refuse other place expected

/-- The texts of a node that is a list, or of one that is left out. -/
def readList (d : Document) (label : String) (node : Node Nat) : Except Problem (List String) :=
  match d.follow node with
  | .sequence _ items =>
    items.zipIdx.mapM fun (item, index) ↦ readText d (.item label index) "a string" item
  | other => if isAbsent other then .ok [] else refuse other (.list label) "a sequence"

/-- Which list a key names, and how the place of its value is written. -/
def readKey (d : Document) (key : Node Nat) : Except Problem (Field × String) := do
  let name ← readText d .whole "field identifier" key
  match Field.ofName? name with
  | some field =>
    .ok (field, match key with
      | .reference _ _ => "?"
      | _ => name)
  | none => .error { refusal := .unknownField name, place := .whole, mark := (d.follow key).mark }

/-- The lists given by the members of a mapping that starts at `mark`, behind those already given.
-/
def readMembers (d : Document) (mark : Mark) :
    List (Field × List String) → List (Node Nat × Node Nat) →
      Except Problem (List (Field × List String))
  | given, [] => .ok given
  | given, (key, value) :: members => do
    let (field, label) ← readKey d key
    if given.any (·.1 = field) then
      .error { refusal := .repeatedField field, place := .whole, mark }
    else
      let texts ← readList d label value
      readMembers d mark (given ++ [(field, texts)]) members

/-- The settings with the given lists, and defaults for the others. -/
def Settings.ofLists (given : List (Field × List String)) : Settings :=
  let base : Settings := {}
  { ignoredDirs := (given.lookup .ignoredDirs).getD base.ignoredDirs
    extensions := (given.lookup .extensions).getD base.extensions
    excludedKeywords := (given.lookup .excludedKeywords).getD base.excludedKeywords }

/-- The settings that a document describes. -/
def Settings.ofDocument (d : Document) : Except Problem Settings :=
  match d.root with
  | none => .ok {}
  | some root =>
    match d.follow root with
    | .mapping p members => do
      .ok (.ofLists (← readMembers d p.mark [] members))
    | other => if isAbsent other then .ok {} else refuse other .whole "struct Config"

/-- Why a text does not describe settings. -/
inductive SettingsError where
  /-- The text is no document. -/
  | malformed (e : SyntaxError)
  /-- The document is not one of settings. -/
  | refused (p : Problem)
  deriving Repr, DecidableEq

/-- The wording of an error. -/
def SettingsError.message : SettingsError → String
  | .malformed e => "invalid config: " ++ e.message
  | .refused p => "invalid config: " ++ p.message

/-- The settings that a text describes; a blank text leaves everything at its default. -/
def Settings.parse (text : List Char) : Except SettingsError Settings :=
  if text.all Text.isBlank then .ok {}
  else
    match Document.read text with
    | .error e => .error (.malformed e)
    | .ok d =>
      match Settings.ofDocument d with
      | .error p => .error (.refused p)
      | .ok s => .ok s

end CallSites
