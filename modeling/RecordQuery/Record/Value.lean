import RecordQuery.Json.Basic

/-!
# Values

The scalars that the fields of a record hold. Integers and floating-point numbers are kept apart, so that an integer is written
as it was read.
-/

namespace RecordQuery

/-- A scalar. -/
inductive Value where
  | null
  | boolean (b : Bool)
  | integer (n : Int64)
  | float (x : Float)
  | string (s : String)
  deriving DecidableEq, Repr

namespace Value

/-- The name of the kind of a value. -/
def typeName : Value → String
  | null => "null"
  | boolean _ => "boolean"
  | integer _ => "integer"
  | float _ => "float"
  | string _ => "string"

/-- How a floating-point number is shown by itself: no mark for an exponent, no point in whole numbers, and of two equally near
decimals the greater one. -/
def floatStyle : Number.FloatStyle := ⟨.up, false, none⟩

/-- A value by itself; a string without quotes. -/
def display : Value → String
  | null => "null"
  | boolean true => "true"
  | boolean false => "false"
  | integer n => String.ofList (Number.writeInt n.toInt)
  | float x => String.ofList (floatStyle.write x)
  | string s => s

/-- The value that a document is, unless it is a list or an object. Integers beyond 64 bits become floating-point numbers. -/
def ofJson? : Json → Option Value
  | .null => some null
  | .bool b => some (boolean b)
  | .number (.integer n) => some (if Number.FitsInt64 n then integer (.ofInt n) else float (.ofInt n))
  | .number (.float x) => some (float x)
  | .string s => some (string s)
  | .array _ => none
  | .object _ => none

/-- A value as a document. -/
def toJson : Value → Json
  | null => .null
  | boolean b => .bool b
  | integer n => .number (.integer n.toInt)
  | float x => .ofFloat x
  | string s => .string s

end Value

end RecordQuery
