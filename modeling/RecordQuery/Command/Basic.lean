import RecordQuery.Json.Reader
import RecordQuery.Registry.Basic
import RecordQuery.Selection.Outline

/-!
# Commands

Checking a query shows how it is read, as tokens or as an outline. Running a query answers it from a data file, a document with a
store under every name.
-/

namespace RecordQuery

/-- Why a command fails. -/
inductive CommandError where
  | parse (error : ParseError)
  | query (error : QueryError)
  | json (error : JsonError)
  | store (error : StoreError)
  /-- A file or the input could not be read. -/
  | io (text : String)
  deriving DecidableEq, Repr

/-- The words for an error. -/
def CommandError.message : CommandError → String
  | .parse error => s!"Parse error: {error.message}"
  | .query error => s!"Query failed: {error.message}"
  | .json error => s!"Invalid data file: {error.message}"
  | .store error => s!"Invalid data file: {error.message}"
  | .io text => s!"IO error: {text}"

/-- What a file holds, or the words for why it cannot be read. -/
abbrev FileContents : Type := Except String (List UInt8)

/-- The words for a file that does not exist. -/
def noSuchFile : String := "No such file or directory (os error 2)"

/-- The words for a directory where a file is wanted. -/
def isDirectory : String := "Is a directory (os error 21)"

/-- The text of a file, which must be UTF-8. -/
def readText (contents : FileContents) : Except CommandError String :=
  match contents with
  | .error text => .error (.io text)
  | .ok bytes =>
    match decodeUtf8? bytes with
    | none => .error (.io "stream did not contain valid UTF-8")
    | some text => .ok text

/-- How a query is read: as the lines that show its tokens, or as an outline. -/
inductive Reading where
  | tokens (lines : List String)
  | outline (document : Json)
  deriving Repr

/-- The lines that show the tokens of a query. -/
def tokenLines (query : String) : List String := (Scanner.ofString query).tokens.map Token.display

/-- Checks a query. -/
def check (query : String) (maxDepth : Option Nat) (tokens : Bool) : Except CommandError Reading :=
  if tokens then .ok (.tokens (tokenLines query))
  else
    match Selection.parse query (maxDepth.getD defaultDepth) with
    | .error e => .error (.parse e)
    | .ok selection => .ok (.outline selection.outline)

namespace Registry

/-- Registers the store that each member holds, in the order of the members. -/
def registerAll (r : Registry) : List (String × Json) → Except CommandError Registry
  | [] => .ok r
  | (name, j) :: members =>
    match Store.ofJson j with
    | .error e => .error (.store e)
    | .ok s =>
      match r.register name s with
      | .error e => .error (.query e)
      | .ok r => r.registerAll members

/-- The registry that a document holds: an object with a store under every name. -/
def ofJson : Json → Except CommandError Registry
  | .object members => empty.registerAll members
  | _ => .error (.store (.malformed .notStores))

/-- The registry that a data file holds. -/
def load (data : FileContents) : Except CommandError Registry :=
  match readText data with
  | .error e => .error e
  | .ok text =>
    match Json.parse text with
    | .error e => .error (.json e)
    | .ok j => ofJson j

end Registry

/-- Answers a query from a data file. What is wrong with the file comes before what is wrong with the query. -/
def run (query : String) (data : FileContents) (maxDepth : Option Nat) : Except CommandError Record :=
  match Registry.load data with
  | .error e => .error e
  | .ok r => (({ r with maxDepth := maxDepth.getD r.maxDepth } : Registry).execute (Text.trimmed query)).mapError .query

end RecordQuery
