import CallSites.Json
import CallSites.Report

/-!
# Reports as JSON

The report for other programs: what was read, the counts, and both lists with every location.
-/

namespace CallSites

/-- The version that reports and the command line give. -/
def version : String := "0.1.0"

/-- A location as JSON. -/
def Location.toJson (l : Location) : Json :=
  .object [("file", .string l.file), ("line", .number l.line)]

/-- An entry as JSON. -/
def Entry.toJson (e : Entry) : Json :=
  .object [("name", .string e.name), ("locations", .array (e.locations.toList.map Location.toJson))]

/-- A report on the tree at `path` as JSON. -/
def Report.toJson (path : String) (r : Report) : Json :=
  .object
    [("version", .string version),
      ("path", .string path),
      ("files_scanned", .number r.files),
      ("declarations", .number r.declarations),
      ("total", .number r.total),
      ("internal_count", .number r.internalCount),
      ("external_count", .number r.externalCount),
      ("internal", .array (r.internal.map Entry.toJson)),
      ("external", .array (r.external.map Entry.toJson))]

/-- The JSON text of a report on the tree at `path`. -/
def Report.structured (path : String) (r : Report) : String :=
  (r.toJson path).write

end CallSites
