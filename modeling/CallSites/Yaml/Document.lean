import CallSites.Yaml.Node

/-!
# Documents

A text holds one document, perhaps with directives before it and end marks behind it, or none at
all.

An alias stands for a node that was given a name. Each naming gets a number, the count of different
names in use before it; a name stands for the number of its latest naming, and a number for the
latest node that was given it. As long as no name is given twice this makes an alias stand for the
node with its name.
-/

namespace CallSites.Yaml

open Reading

/-! ## Directives -/

/-- The handles every document has. -/
def standardHandles : Handles :=
  [("!", "!"), ("!!", "tag:yaml.org,2002:")]

/-- The directives before a document: at most one version, and handles that differ. -/
def directives : Nat → Bool → Handles → Reading Handles
  | 0, _, _ => fail .unfinished
  | fuel + 1, versioned, handles => do
    match (← peek).token with
    | .version major minor =>
      if versioned then fail .repeatedDirective
      else if major ≠ 1 ∨ (minor ≠ 1 ∧ minor ≠ 2) then fail .badVersion
      else
        skip
        directives fuel true handles
    | .handle name expansion =>
      if (handles.lookup name).isSome then fail .repeatedDirective
      else
        skip
        directives fuel versioned (handles ++ [(name, expansion)])
    | _ => return handles

/-- End marks in a row. -/
def endMarks : Nat → Reading Unit
  | 0 => fail .unfinished
  | fuel + 1 => do
    if (← accept? .documentEnd).isSome then endMarks fuel

/-- Whether a token stands between documents. -/
def betweenDocuments : Token → Bool
  | .version .. | .handle .. | .documentStart | .documentEnd | .streamEnd => true
  | _ => false

/-- The document of a token stream, if it holds one. -/
def document : Reading (Option (Node String)) := do
  let rounds := 2 * (← get).length + 4
  match (← peek).token with
  | .streamEnd => return none
  | .version .. | .handle .. | .documentStart =>
    let handles ← directives rounds false []
    if (← accept? .documentStart).isNone then fail .expectedDocumentStart
    let next ← peek
    let root ←
      if betweenDocuments next.token then pure (.absent next.start)
      else node (handles ++ standardHandles) rounds true false
    ending rounds
    return some root
  | _ =>
    let root ← node standardHandles rounds true false
    ending rounds
    return some root
where
  /-- Nothing but end marks may follow. -/
  ending (rounds : Nat) : Reading Unit := do
    endMarks rounds
    if (← accept? .streamEnd).isNone then fail .secondDocument

/-! ## Aliases -/

/-- The namings of a document so far, the latest first. -/
abbrev Namings := List (String × Nat)

/-- How many different names are in use. -/
def Namings.count (names : Namings) : Nat :=
  (names.map (·.1)).eraseDups.length

/-- A numbered node: what takes its place, and the nodes in it that were given a number, each before
those inside it. -/
abbrev Numbered (α : Type) := α × List (Nat × Node Nat)

/-- A naming of a node, if it has a name: its number, and the namings behind it. -/
def name? (names : Namings) (p : Properties) : Option Nat × Namings :=
  match p.anchor with
  | some name => (some names.count, (name, names.count) :: names)
  | none => (none, names)

/-- The nodes that were given a number, with the node itself first if it was. -/
def withSelf (number : Option Nat) (self : Node Nat) (inside : List (Nat × Node Nat)) :
    Numbered (Node Nat) :=
  (self, (number.toList.map fun n ↦ (n, self)) ++ inside)

mutual

/-- A node with its aliases numbered, and the namings behind it. -/
def number (names : Namings) : Node String → Except SyntaxError (Numbered (Node Nat) × Namings)
  | .scalar p style text =>
    let (n, names) := name? names p
    .ok (withSelf n (.scalar p style text) [], names)
  | .sequence p items => do
    let (n, names) := name? names p
    let ((items, inside), names) ← numberItems names items
    .ok (withSelf n (.sequence p items) inside, names)
  | .mapping p members => do
    let (n, names) := name? names p
    let ((members, inside), names) ← numberMembers names members
    .ok (withSelf n (.mapping p members) inside, names)
  | .reference mark name =>
    match names.lookup name with
    | some n => .ok ((.reference mark n, []), names)
    | none => .error ⟨.undefinedAlias, mark⟩

/-- The items of a sequence with their aliases numbered. -/
def numberItems (names : Namings) :
    List (Node String) → Except SyntaxError (Numbered (List (Node Nat)) × Namings)
  | [] => .ok (([], []), names)
  | item :: items => do
    let ((item, inside), names) ← number names item
    let ((items, others), names) ← numberItems names items
    .ok ((item :: items, inside ++ others), names)

/-- The members of a mapping with their aliases numbered. -/
def numberMembers (names : Namings) :
    List (Node String × Node String) →
      Except SyntaxError (Numbered (List (Node Nat × Node Nat)) × Namings)
  | [] => .ok (([], []), names)
  | (key, value) :: members => do
    let ((key, inKey), names) ← number names key
    let ((value, inValue), names) ← number names value
    let ((members, others), names) ← numberMembers names members
    .ok (((key, value) :: members, inKey ++ inValue ++ others), names)

end

/-- A document with its aliases numbered. -/
structure Document where
  /-- The outermost node, if there is any content. -/
  root : Option (Node Nat)
  /-- The numbered nodes, in order. -/
  targets : List (Nat × Node Nat) := []
  deriving DecidableEq

namespace Document

/-- The document in a text. -/
def read (text : List Char) : Except SyntaxError Document := do
  let (root, _) ← (document.run (← tokens text))
  match root with
  | none => .ok { root := none }
  | some root =>
    let ((root, targets), _) ← number [] root
    .ok { root := some root, targets }

/-- The node that an alias stands for, or a node itself. -/
def follow (d : Document) : Node Nat → Node Nat
  | .reference mark n => ((d.targets.filter (·.1 == n)).getLast?.map (·.2)).getD (.absent mark)
  | n => n

end Document

end CallSites.Yaml
