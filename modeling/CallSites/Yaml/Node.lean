import CallSites.Yaml.Token.Stream

/-!
# Nodes

The tree that the tokens of a document describe. A value that is left out is an empty plain scalar
at the place where it would have stood. Every call of the grammar takes a token or descends to one
that does, so a number of rounds in proportion to the tokens is enough.
-/

namespace CallSites.Yaml

/-- What may be said about a node before its content. -/
structure Properties where
  /-- Where the node starts, its properties included. -/
  mark : Mark := {}
  anchor : Option String := none
  tag : Option String := none
  deriving Repr, DecidableEq

/-- A node of a document. An alias stands for the node that carries its name, or once it has been
looked up, its number. -/
inductive Node (α : Type) where
  | scalar (properties : Properties) (style : Style) (text : String)
  | sequence (properties : Properties) (items : List (Node α))
  | mapping (properties : Properties) (members : List (Node α × Node α))
  | reference (mark : Mark) (target : α)

/-- Where a node starts. -/
def Node.mark {α : Type} : Node α → Mark
  | scalar p _ _ => p.mark
  | sequence p _ => p.mark
  | mapping p _ => p.mark
  | reference m _ => m

/-- A value that is left out. -/
def Node.absent {α : Type} (mark : Mark) : Node α :=
  .scalar { mark } .plain ""

mutual

/-- Whether two nodes are the same. -/
def Node.decEq {α : Type} [DecidableEq α] : (a b : Node α) → Decidable (a = b)
  | .scalar p style text, .scalar p' style' text' =>
    decidable_of_iff (p = p' ∧ style = style' ∧ text = text') (Node.scalar.injEq .. ▸ Iff.rfl)
  | .sequence p items, .sequence p' items' =>
    have := Node.itemsDecEq items items'
    decidable_of_iff (p = p' ∧ items = items') (Node.sequence.injEq .. ▸ Iff.rfl)
  | .mapping p members, .mapping p' members' =>
    have := Node.membersDecEq members members'
    decidable_of_iff (p = p' ∧ members = members') (Node.mapping.injEq .. ▸ Iff.rfl)
  | .reference mark target, .reference mark' target' =>
    decidable_of_iff (mark = mark' ∧ target = target') (Node.reference.injEq .. ▸ Iff.rfl)
  | .scalar .., .sequence .. | .scalar .., .mapping .. | .scalar .., .reference ..
  | .sequence .., .scalar .. | .sequence .., .mapping .. | .sequence .., .reference ..
  | .mapping .., .scalar .. | .mapping .., .sequence .. | .mapping .., .reference ..
  | .reference .., .scalar .. | .reference .., .sequence .. | .reference .., .mapping .. =>
    isFalse nofun

/-- Whether two lists of nodes are the same. -/
def Node.itemsDecEq {α : Type} [DecidableEq α] : (l l' : List (Node α)) → Decidable (l = l')
  | [], [] => isTrue rfl
  | [], _ :: _ | _ :: _, [] => isFalse nofun
  | a :: l, a' :: l' =>
    have := Node.decEq a a'
    have := Node.itemsDecEq l l'
    decidable_of_iff (a = a' ∧ l = l') (List.cons.injEq .. ▸ Iff.rfl)

/-- Whether two lists of pairs of nodes are the same. -/
def Node.membersDecEq {α : Type} [DecidableEq α] :
    (l l' : List (Node α × Node α)) → Decidable (l = l')
  | [], [] => isTrue rfl
  | [], _ :: _ | _ :: _, [] => isFalse nofun
  | (a, b) :: l, (a', b') :: l' =>
    have := Node.decEq a a'
    have := Node.decEq b b'
    have := Node.membersDecEq l l'
    decidable_of_iff ((a = a' ∧ b = b') ∧ l = l')
      (List.cons.injEq .. ▸ Prod.mk.injEq .. ▸ Iff.rfl)

end

instance {α : Type} [DecidableEq α] : DecidableEq (Node α) := Node.decEq

/-! ## Reading tokens -/

/-- A reader of tokens. -/
abbrev Reading := StateT (List Placed) (Except SyntaxError)

namespace Reading

/-- The next token; a stream ends in a token of its own. -/
def peek : Reading Placed := do
  return (← get).headD ⟨.streamEnd, {}, {}⟩

/-- Passes over the next token. -/
def skip : Reading Unit :=
  modify (·.drop 1)

/-- A complaint about the next token. -/
def fail {α : Type} (fault : Fault) : Reading α := do
  throw ⟨fault, (← peek).start⟩

/-- The next token, if it is the given one, which is then passed over. -/
def accept? (token : Token) : Reading (Option Placed) := do
  let next ← peek
  if next.token = token then
    skip
    return some next
  else return none

/-- Whether the next token is one of the given ones. -/
def at? (tokens : List Token) : Reading Bool := do
  return tokens.contains (← peek).token

end Reading

open Reading

/-! ## Properties -/

/-- The expansions of tag handles. -/
abbrev Handles := List (String × String)

/-- An anchor, if there is one. -/
def anchor? : Reading (Option String) := do
  match (← peek).token with
  | .anchor name =>
    skip
    return some name
  | _ => return none

/-- A tag, if there is one. -/
def tag? (handles : Handles) : Reading (Option String) := do
  match (← peek).token with
  | .tag "" suffix =>
    skip
    return some suffix
  | .tag handle suffix =>
    match handles.lookup handle with
    | some expansion =>
      skip
      return some (expansion ++ suffix)
    | none => fail .undefinedHandle
  | _ => return none

/-- An anchor and a tag, in either order. -/
def properties (handles : Handles) : Reading Properties := do
  let mark := (← peek).start
  match ← anchor? with
  | some anchor => return { mark, anchor, tag := ← tag? handles }
  | none =>
    let tag ← tag? handles
    return { mark, anchor := ← if tag.isSome then anchor? else pure none, tag }

/-! ## The grammar -/

/-- A node without content, which its properties must stand for. -/
def bareNode (p : Properties) : Reading (Node String) :=
  if p.anchor.isSome || p.tag.isSome then return .scalar p .plain "" else fail .expectedNode

/-- The comma that every item but the first of a flow collection needs. -/
def separator (first : Bool) : Reading Unit := do
  unless first do
    if (← accept? .flowEntry).isNone then fail .expectedItem

mutual

/-- A node. Block collections are refused unless `block`; with `dashes`, a sequence may go without
indentation of its own. -/
def node (handles : Handles) : Nat → Bool → Bool → Reading (Node String)
  | 0, _, _ => fail .unfinished
  | fuel + 1, block, dashes => do
    match ← peek with
    | ⟨.reference name, mark, _⟩ =>
      skip
      return .reference mark name
    | _ =>
      let p ← properties handles
      match (← peek).token with
      | .scalar style text =>
        skip
        return .scalar (if p.tag = some "!" then { p with tag := none } else p) style text
      | .flowSequence =>
        skip
        return .sequence p (← flowItems handles fuel true)
      | .flowMapping =>
        skip
        return .mapping p (← flowMembers handles fuel true)
      | .blockEntry =>
        if dashes then return .sequence p (← dashedItems handles fuel) else bareNode p
      | .blockSequence =>
        if block then
          skip
          return .sequence p (← blockItems handles fuel)
        else bareNode p
      | .blockMapping =>
        if block then
          skip
          return .mapping p (← blockMembers handles fuel)
        else bareNode p
      | _ => bareNode p

/-- The items of an indented block sequence, up to its end. -/
def blockItems (handles : Handles) : Nat → Reading (List (Node String))
  | 0 => fail .unfinished
  | fuel + 1 => do
    match ← accept? .blockEntry with
    | some dash =>
      let item ←
        if ← at? [.blockEntry, .blockEnd] then pure (.absent dash.stop)
        else node handles fuel true false
      return item :: (← blockItems handles fuel)
    | none => if (← accept? .blockEnd).isSome then return [] else fail .expectedItem

/-- The items of a block sequence at the indentation of the mapping around it. -/
def dashedItems (handles : Handles) : Nat → Reading (List (Node String))
  | 0 => fail .unfinished
  | fuel + 1 => do
    match ← accept? .blockEntry with
    | some dash =>
      let item ←
        if ← at? [.blockEntry, .key, .value, .blockEnd] then pure (.absent dash.stop)
        else node handles fuel true false
      return item :: (← dashedItems handles fuel)
    | none => return []

/-- The members of a block mapping, up to its end. -/
def blockMembers (handles : Handles) : Nat → Reading (List (Node String × Node String))
  | 0 => fail .unfinished
  | fuel + 1 => do
    match ← accept? .key with
    | some mark =>
      let key ← blockPart handles fuel mark.stop
      let value ←
        match ← accept? .value with
        | some mark => blockPart handles fuel mark.stop
        | none => pure (.absent (← peek).start)
      return (key, value) :: (← blockMembers handles fuel)
    | none => if (← accept? .blockEnd).isSome then return [] else fail .expectedKey

/-- A key or a value of a block mapping, behind its indicator, which ended at `stop`. -/
def blockPart (handles : Handles) : Nat → Mark → Reading (Node String)
  | 0, _ => fail .unfinished
  | fuel + 1, stop => do
    if ← at? [.key, .value, .blockEnd] then return .absent stop else node handles fuel true true

/-- The items of a flow sequence, up to its end. An item may be a mapping of one member, announced
by the indicator of a key; if its key is left out, the token in its place is lost. -/
def flowItems (handles : Handles) : Nat → Bool → Reading (List (Node String))
  | 0, _ => fail .unfinished
  | fuel + 1, first => do
    if (← accept? .flowSequenceEnd).isSome then return []
    separator first
    if (← accept? .flowSequenceEnd).isSome then return []
    let item ←
      match ← accept? .key with
      | some announced =>
        let key ←
          if ← at? [.value, .flowEntry, .flowSequenceEnd] then
            let stop := (← peek).stop
            skip
            pure (.absent stop)
          else node handles fuel false false
        let value ← flowValue handles fuel .flowSequenceEnd
        pure (.mapping { mark := announced.start } [(key, value)])
      | none => node handles fuel false false
    return item :: (← flowItems handles fuel false)

/-- The members of a flow mapping, up to its end. A member may lack its value. -/
def flowMembers (handles : Handles) : Nat → Bool → Reading (List (Node String × Node String))
  | 0, _ => fail .unfinished
  | fuel + 1, first => do
    if (← accept? .flowMappingEnd).isSome then return []
    separator first
    if (← accept? .flowMappingEnd).isSome then return []
    let member ←
      match ← accept? .key with
      | some _ =>
        let key ←
          if ← at? [.value, .flowEntry, .flowMappingEnd] then pure (.absent (← peek).start)
          else node handles fuel false false
        let value ← flowValue handles fuel .flowMappingEnd
        pure (key, value)
      | none =>
        let key ← node handles fuel false false
        pure (key, .absent (← peek).start)
    return member :: (← flowMembers handles fuel false)

/-- The value of a member inside a flow collection that ends in `closing`. -/
def flowValue (handles : Handles) : Nat → Token → Reading (Node String)
  | 0, _ => fail .unfinished
  | fuel + 1, closing => do
    if (← accept? .value).isNone then return .absent (← peek).start
    if ← at? [.flowEntry, closing] then return .absent (← peek).start
    node handles fuel false false

end

end CallSites.Yaml
