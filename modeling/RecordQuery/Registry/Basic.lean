import RecordQuery.Registry.Source
import RecordQuery.Selection.Reader
import RecordQuery.Store

/-!
# Registries

A registry holds backends under names and answers queries: the name of the requested object is the name of a backend, its
argument is the id of a record there, and the plain fields are what is asked of the record. Calls and nested groups have no say
in it.
-/

namespace RecordQuery

/-- Why a query has no answer. -/
inductive QueryError where
  /-- The query could not be read from its source, which failed with this text. -/
  | reading (text : String)
  | parse (error : ParseError)
  | argument (error : ArgumentError)
  | unknownStore (name : String)
  | alreadyRegistered (name : String)
  | store (error : StoreError)
  | notUtf8
  deriving DecidableEq, Repr

namespace QueryError

/-- The words for an error. -/
def message : QueryError → String
  | reading text => s!"reading query failed: {text}"
  | parse error => error.message
  | argument error => error.message
  | unknownStore name => s!"store not registered: {name}"
  | alreadyRegistered name => s!"store already registered: {name}"
  | store error => error.message
  | notUtf8 => "query text is not valid UTF-8"

/-- The status of an answer with this error: 400 where the query is at fault, 404 where something is not there, and 500 for the
rest. -/
def status : QueryError → Nat
  | parse _ | argument _ | notUtf8 => 400
  | unknownStore _ | store (.notFound _) => 404
  | _ => 500

end QueryError

/-- How many bytes of a query are read when nothing else is said. -/
def defaultQueryBytes : Nat := 512 * 1024

/-- Backends under names. -/
structure Registry where
  stores : Table String Backend := .empty
  /-- How many bytes of a query are read from a source. -/
  maxBytes : Nat := defaultQueryBytes
  /-- How many field groups of a query may be nested in each other. -/
  maxDepth : Nat := defaultDepth

/-- The answer to a request: a status, and a body that ends with a line feed. -/
structure Response where
  status : Nat
  body : String
  deriving DecidableEq, Repr

namespace Registry

/-- The registry without stores. -/
def empty : Registry := {}

/-- Whether there is a backend under a name. -/
def isRegistered (r : Registry) (name : String) : Bool := r.stores.contains name

/-- Puts a backend under a name that is still free. -/
def register (r : Registry) (name : String) (b : Backend) : Except QueryError Registry :=
  if r.isRegistered name then .error (.alreadyRegistered name) else .ok { r with stores := r.stores.insert name b }

/-- The answer to a selection. -/
def resolve (r : Registry) (selection : Selection) : Except QueryError Record :=
  match r.stores.get? selection.name with
  | none => .error (.unknownStore selection.name)
  | some b =>
    match selection.recordId with
    | .error e => .error (.argument e)
    | .ok id => (b.get id selection.plainFields).mapError .store

/-- The answer to a query. -/
def execute (r : Registry) (query : String) : Except QueryError Record :=
  match Selection.parse query r.maxDepth with
  | .error e => .error (.parse e)
  | .ok selection => r.resolve selection

/-- The answer to a query that is read from a source, as far as the registry reads. -/
def executeSource (r : Registry) (source : ByteSource) : Except QueryError Record :=
  match source.read r.maxBytes with
  | .error text => .error (.reading text)
  | .ok bytes =>
    match decodeUtf8? bytes with
    | none => .error .notUtf8
    | some query => r.execute query

/-- The response to a request: the record on one line, or the words for the error. -/
def respond (r : Registry) (source : ByteSource) : Response :=
  match r.executeSource source with
  | .ok record => ⟨200, record.compact ++ "\n"⟩
  | .error e => ⟨e.status, e.message ++ "\n"⟩

end Registry

end RecordQuery
