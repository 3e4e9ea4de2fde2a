import RecordQuery.Keyed
import RecordQuery.Number.Shortest
import RecordQuery.Number.Signed

/-!
# JSON documents

Values of the data format in which records are stored and answers are written. The members of an object stand in ascending order
of their keys, each key once; a number is an integer where the text has no fraction and no exponent and the value fits a word.
-/

namespace RecordQuery

/-- A number of a document. -/
inductive JsonNumber where
  | integer (n : Int)
  | float (x : Float)
  deriving DecidableEq, Repr

/-- A document. -/
inductive Json where
  | null
  | bool (b : Bool)
  | number (n : JsonNumber)
  | string (s : String)
  | array (items : List Json)
  /-- Members in ascending order of their keys. -/
  | object (members : List (String × Json))
  deriving Repr

namespace Json

/-- The document for a floating-point number; those that are no numbers, and the infinities, have none of their own. -/
def ofFloat (x : Float) : Json := if x.isFinite then .number (.float x) else .null

/-- The object with these members; of several with one key the last stays. -/
def ofMembers (members : List (String × Json)) : Json := .object (Table.ofList members).entries

end Json

end RecordQuery
