import Std.Data.HashMap

/-!
# Call records

A record groups calls by the called name. Names stand in the order in which they were first seen,
and the locations of a name in the order in which they were added. Beside the entries the record
keeps the position of each name among them, so that adding a call does not search.
-/

namespace CallSites

/-- A line of a file. Lines count from one. -/
structure Location where
  file : String
  line : Nat
  deriving Repr, DecidableEq

/-- How a location is shown. -/
def Location.shown (l : Location) : String :=
  l.file ++ ": line " ++ Nat.repr l.line

/-- One call: the called name and where it stands. -/
structure Call where
  name : String
  location : Location
  deriving Repr, DecidableEq

/-- A called name with every place it is called from. -/
structure Entry where
  name : String
  locations : Array Location
  deriving Repr, DecidableEq

/-- The number of locations in a list of entries. -/
def countLocations (entries : List Entry) : Nat :=
  entries.foldr (fun e n ↦ e.locations.size + n) 0

/-- Calls by name, in order of discovery. -/
structure Record where
  entries : Array Entry := #[]
  /-- The position of each name among the entries. -/
  index : Std.HashMap String Nat := ∅

namespace Record

instance : EmptyCollection Record := ⟨{}⟩

instance : Inhabited Record := ⟨∅⟩

/-- The record with further locations of `name`, behind those it has. -/
def extend (r : Record) (name : String) (locations : Array Location) : Record :=
  match r.index[name]? with
  | some i =>
    let entries := r.entries.modify i fun e ↦ { e with locations := e.locations ++ locations }
    { r with entries }
  | none =>
    { entries := r.entries.push { name, locations }, index := r.index.insert name r.entries.size }

/-- The record with one more call. -/
def push (r : Record) (c : Call) : Record :=
  r.extend c.name #[c.location]

/-- The record with the locations of another behind its own. -/
def merge (r s : Record) : Record :=
  s.entries.foldl (fun r e ↦ r.extend e.name e.locations) r

/-- The record of a sequence of calls. -/
def ofCalls (calls : List Call) : Record :=
  calls.foldl push ∅

/-- The locations of a name. -/
def get? (r : Record) (name : String) : Option (Array Location) := do
  let i ← r.index[name]?
  let e ← r.entries[i]?
  return e.locations

/-- The called names, in order of discovery. -/
def names (r : Record) : List String :=
  r.entries.toList.map (·.name)

/-- The number of called names. -/
def size (r : Record) : Nat :=
  r.entries.size

/-- Whether nothing is recorded. -/
def isEmpty (r : Record) : Bool :=
  r.entries.isEmpty

/-- The number of calls. -/
def callCount (r : Record) : Nat :=
  countLocations r.entries.toList

end Record

end CallSites
