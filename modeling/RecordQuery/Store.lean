import RecordQuery.Record.Basic
import RecordQuery.Text.Blank
import RecordQuery.Text.Quoted

/-!
# Stores

A store holds records under ids of 64 bits. It is filled record by record or read from a document, an object whose keys are
written ids and whose members are flat objects. The members are taken in the order of their keys: the first one with a fault is
reported, and of several that write the same id the last one stays.
-/

namespace RecordQuery

/-- Why a document does not hold records. -/
inductive StoreFault where
  /-- It is not an object. -/
  | notRecords
  /-- It is not an object of stores. -/
  | notStores
  /-- A key is not a written id. -/
  | badKey (key : String)
  /-- What stands under an id is not an object. -/
  | notRecord (id : Int64)
  /-- A field is a list or an object. -/
  | notScalar (field : String) (id : Int64)
  deriving DecidableEq, Repr

/-- The digits of an id. -/
def idText (id : Int64) : String := String.ofList (Number.writeInt id.toInt)

/-- The words for a fault. -/
def StoreFault.message : StoreFault → String
  | .notRecords => "expected an object of records keyed by id"
  | .notStores => "expected an object of stores keyed by name"
  | .badKey key => s!"record key {Text.quoted key} is not an integer id"
  | .notRecord id => s!"record {idText id} is not an object"
  | .notScalar field id => s!"field {Text.quoted field} of record {idText id} is not a scalar"

/-- Why a store has no answer. -/
inductive StoreError where
  /-- There is no record with this id. -/
  | notFound (id : Int64)
  /-- The record lacks this field. -/
  | missingField (field : String)
  | malformed (fault : StoreFault)
  deriving DecidableEq, Repr

/-- The words for an error. -/
def StoreError.message : StoreError → String
  | .notFound _ => "not found"
  | .missingField field => s!"required field not found: {field}"
  | .malformed fault => s!"malformed store data: {fault.message}"

/-- What answers requests for fields of the record with an id. -/
structure Backend where
  get : Int64 → List String → Except StoreError Record

/-- Records under ids. -/
structure Store where
  records : Table Int64 Record

namespace Store

/-- The store without records. -/
def empty : Store := ⟨.empty⟩

/-- Puts a record under an id, in the stead of the record that was there. -/
def insert (s : Store) (id : Int64) (r : Record) : Store := ⟨s.records.insert id r⟩

/-- The number of records. -/
def size (s : Store) : Nat := s.records.size

/-- Whether there are no records. -/
def isEmpty (s : Store) : Bool := s.records.isEmpty

/-- The requested fields of the record with an id. -/
def get (s : Store) (id : Int64) (fields : List String) : Except StoreError Record :=
  match s.records.get? id with
  | none => .error (.notFound id)
  | some r => (r.project fields).mapError .missingField

/-- A store answers requests from its records. -/
def backend (s : Store) : Backend := ⟨s.get⟩

instance : Coe Store Backend := ⟨backend⟩

/-- The id that a key writes; blanks around it do not count. -/
def keyId? (key : String) : Option Int64 := (Number.readInt64 (Text.trim key.toList)).toOption

/-- Adds the members of an object to a record. -/
def readFields (id : Int64) (r : Record) : List (String × Json) → Except StoreFault Record
  | [] => .ok r
  | (field, j) :: members =>
    match Value.ofJson? j with
    | none => .error (.notScalar field id)
    | some value => readFields id (r.insert field value) members

/-- Adds the members of an object to a store. -/
def readRecords (s : Store) : List (String × Json) → Except StoreFault Store
  | [] => .ok s
  | (key, j) :: members =>
    match keyId? key with
    | none => .error (.badKey key)
    | some id =>
      match j with
      | .object fields =>
        match readFields id .empty fields with
        | .error fault => .error fault
        | .ok r => (s.insert id r).readRecords members
      | _ => .error (.notRecord id)

/-- The store that a document holds. -/
def ofJson : Json → Except StoreError Store
  | .object members => (empty.readRecords members).mapError .malformed
  | _ => .error (.malformed .notRecords)

end Store

end RecordQuery
