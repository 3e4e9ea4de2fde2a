import RecordQuery.Json.Basic
import RecordQuery.Selection.Basic

/-!
# Outlines

The outline of a selection is a document that says everything the selection says: the name, the argument and the calls if there
are any, and for a field group an object with the outline of every field, where a bare field is `null`.
-/

namespace RecordQuery

/-- The argument as a member, if there is one. -/
def argumentMember : Option String → List (String × Json)
  | none => []
  | some argument => [("argument", .string argument)]

/-- A call as a document. -/
def Call.outline (c : Call) : Json := .object (argumentMember c.argument ++ [("name", .string c.name)])

/-- The calls as a member, if there are any. -/
def callsMember : List Call → List (String × Json)
  | [] => []
  | cs => [("calls", .array (cs.map Call.outline))]

/-- Whether nothing but the name is said. -/
def Head.isBare (h : Head) : Bool := h.argument.isNone && h.calls.isEmpty

/-- A head with what is said about the fields, in the order of the keys. -/
def Head.outline (h : Head) (fields : List (String × Json)) : Json :=
  .object (argumentMember h.argument ++ callsMember h.calls ++ fields ++ [("name", .string h.name)])

namespace Selection

mutual

/-- A selection as a document. -/
def outline : Selection → Json
  | leaf h => h.outline []
  | group h fs => h.outline [("fields", .object (fieldOutlines fs))]

/-- The fields of a group as members. -/
def fieldOutlines : List Selection → List (String × Json)
  | [] => []
  | leaf h :: fs => (h.name, if h.isBare then .null else outline (leaf h)) :: fieldOutlines fs
  | group h gs :: fs => (h.name, outline (group h gs)) :: fieldOutlines fs

end

end Selection

end RecordQuery
