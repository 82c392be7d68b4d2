import CallSites.Proofs.JsonValues
import CallSites.Report.Structured

/-!
# Reading a report in JSON

What a program gets that reads a report in JSON by its keys. It need not know in which order the
members stand, which other members there are, or how the text is laid out; all it asks for is that
each key it looks for is there once and has a value of the right kind.

The main result is that such a program gets back all that the report says: the counts, and both
lists with every name, file and line in order. The counts of calls are no more than what the lists
say, so path and report can be told from the text, and different ones have different texts.
-/

namespace CallSites

/-! ## Values by kind and key -/

namespace Json.Value

/-- The value of a key that an object has exactly once. -/
def member? (key : String) : Value → Option Value
  | object members =>
    match members.filter (·.1 == key) with
    | [(_, v)] => some v
    | _ => none
  | _ => none

/-- A text. -/
def text? : Value → Option String
  | string s => some s
  | _ => none

/-- A count: a number without sign and exponent. -/
def count? : Value → Option Nat
  | number ⟨false, n, 0⟩ => some n
  | _ => none

/-- A list, item by item. -/
def items? {α : Type} (read : Value → Option α) : Value → Option (List α)
  | array vs => vs.mapM read
  | _ => none

end Json.Value

open Json (Value)

/-! ## Reports -/

/-- The location that a value gives. -/
def Location.ofValue? (v : Value) : Option Location := do
  let file ← (← v.member? "file").text?
  let line ← (← v.member? "line").count?
  return { file, line }

/-- The entry that a value gives. -/
def Entry.ofValue? (v : Value) : Option Entry := do
  let name ← (← v.member? "name").text?
  let locations ← (← v.member? "locations").items? Location.ofValue?
  return { name, locations := locations.toArray }

/-- What a report in JSON tells. -/
structure StructuredReport where
  version : String
  path : String
  files : Nat
  declarations : Nat
  total : Nat
  internalCount : Nat
  externalCount : Nat
  internal : List Entry
  external : List Entry
  deriving Repr, DecidableEq

/-- What a value tells about a tree. -/
def StructuredReport.ofValue? (v : Value) : Option StructuredReport := do
  let version ← (← v.member? "version").text?
  let path ← (← v.member? "path").text?
  let files ← (← v.member? "files_scanned").count?
  let declarations ← (← v.member? "declarations").count?
  let total ← (← v.member? "total").count?
  let internalCount ← (← v.member? "internal_count").count?
  let externalCount ← (← v.member? "external_count").count?
  let internal ← (← v.member? "internal").items? Entry.ofValue?
  let external ← (← v.member? "external").items? Entry.ofValue?
  return {
    version, path, files, declarations, total, internalCount, externalCount, internal, external }

/-- What a text tells about a tree. -/
def StructuredReport.ofText? (text : String) : Option StructuredReport := do
  ofValue? (← Value.ofText? text)

/-! ## What is told is what was reported -/

theorem toValues_map {α : Type} (f : α → Json) (xs : List α) :
    Json.toValues (xs.map f) = xs.map fun x ↦ (f x).toValue := by
  induction xs with
  | nil => rfl
  | cons x xs ih => rw [List.map_cons, Json.toValues, ih, List.map_cons]

/-- A list is read back if its items are. -/
theorem items?_toValues_map {α : Type} {f : α → Json} {read : Value → Option α}
    (h : ∀ x, read (f x).toValue = some x) (xs : List α) :
    (Value.array (Json.toValues (xs.map f))).items? read = some xs := by
  rw [toValues_map, Value.items?]
  induction xs with
  | nil => rfl
  | cons x xs ih => simp [h, ih]

theorem Location.ofValue?_toJson (l : Location) : ofValue? l.toJson.toValue = some l :=
  rfl

theorem Entry.ofValue?_toJson (e : Entry) : ofValue? e.toJson.toValue = some e := by
  -- the keys are fixed texts, so every look-up computes
  have hkeys : ofValue? e.toJson.toValue = do
      let locations ← (Value.array (Json.toValues (e.locations.toList.map Location.toJson))).items?
        Location.ofValue?
      return { name := e.name, locations := locations.toArray } := rfl
  rw [hkeys, items?_toValues_map Location.ofValue?_toJson]
  rfl

/-- What a report on the tree at `path` tells in JSON. -/
def Report.toStructured (path : String) (r : Report) : StructuredReport where
  version := CallSites.version
  path
  files := r.files
  declarations := r.declarations
  total := r.total
  internalCount := r.internalCount
  externalCount := r.externalCount
  internal := r.internal
  external := r.external

/-- Path and report can be told from what the report tells. -/
theorem Report.eq_of_toStructured_eq {path path' : String} {r r' : Report}
    (h : r.toStructured path = r'.toStructured path') : path = path' ∧ r = r' := by
  obtain ⟨internal, external, files, declarations⟩ := r
  obtain ⟨internal', external', files', declarations'⟩ := r'
  simp only [toStructured, StructuredReport.mk.injEq] at h
  obtain ⟨-, rfl, rfl, rfl, -, -, -, rfl, rfl⟩ := h
  exact ⟨rfl, rfl⟩

theorem StructuredReport.ofValue?_toJson (path : String) (r : Report) :
    ofValue? (r.toJson path).toValue = some (r.toStructured path) := by
  have hkeys : ofValue? (r.toJson path).toValue = do
      let internal ← (Value.array (Json.toValues (r.internal.map Entry.toJson))).items?
        Entry.ofValue?
      let external ← (Value.array (Json.toValues (r.external.map Entry.toJson))).items?
        Entry.ofValue?
      return { r.toStructured path with internal, external } := rfl
  rw [hkeys, items?_toValues_map Entry.ofValue?_toJson, items?_toValues_map Entry.ofValue?_toJson]
  rfl

theorem StructuredReport.ofText?_structured (path : String) (r : Report) :
    ofText? (r.structured path) = some (r.toStructured path) := by
  rw [Report.structured, ofText?, Json.ofText?_write]
  exact ofValue?_toJson path r

/-- **A report in JSON tells all that was reported**: whatever the path and the report, its text can
be read, and what is read is what was written. So no text is that of two reports, or of one report
on two paths. -/
theorem structured_tells_all :
    (∀ path r, StructuredReport.ofText? (Report.structured path r) = some (r.toStructured path)) ∧
      ∀ path r path' r', (path, r) ≠ (path', r') →
        Report.structured path r ≠ Report.structured path' r' := by
  refine ⟨StructuredReport.ofText?_structured, ?_⟩
  intro path r path' r' hne htext
  have hread := StructuredReport.ofText?_structured path r
  rw [htext, StructuredReport.ofText?_structured, Option.some.injEq] at hread
  obtain ⟨hpath, hreport⟩ := Report.eq_of_toStructured_eq hread.symm
  exact hne (Prod.ext hpath hreport)

end CallSites
