import RecordQuery.Json.Printer
import RecordQuery.Keyed
import RecordQuery.Record.Value

/-!
# Records

A record holds a value under each of its field names.
-/

namespace RecordQuery

/-- Values under field names, in ascending order of the names. -/
abbrev Record : Type := Table String Value

namespace Record

/-- A record as a document. -/
def outline (r : Record) : Json := .object (r.entries.map fun (name, value) => (name, value.toJson))

/-- A record on one line. -/
def compact (r : Record) : String := r.outline.compact

/-- A record with a line for every field. -/
def pretty (r : Record) : String := r.outline.pretty

/-- The values of the requested fields, or the first of these that the record lacks. -/
def project (r : Record) : List String → Except String Record
  | [] => .ok .empty
  | name :: names =>
    match r.get? name with
    | none => .error name
    | some value => (r.project names).map (·.insert name value)

end Record

end RecordQuery
