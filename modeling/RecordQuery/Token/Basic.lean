import RecordQuery.Text.Quoted

/-!
# Tokens

The marks and words of a query. A token remembers its text and the half-open range of bytes that it covers. The last token of a
query is either the end of the input or the fault that stopped the scan.
-/

namespace RecordQuery

/-- Why a scan stopped before the end of the query. -/
inductive ScanFault where
  /-- No parenthesis follows the name of a call. -/
  | functionName
  /-- An argument is not closed on its line. -/
  | argument
  /-- Neither a call nor a field group follows a closed argument. -/
  | openBrace
  /-- A field group is not closed. -/
  | fieldName
  deriving DecidableEq, Repr

/-- The words for a fault. -/
def ScanFault.message : ScanFault → String
  | .functionName => "illegal function name"
  | .argument => "illegal function argument"
  | .openBrace => "illegal left curly"
  | .fieldName => "illegal fieldname"

/-- What a token is. -/
inductive TokenKind where
  /-- The name of the requested record. -/
  | objectName
  /-- The dot before a call. -/
  | dot
  /-- The name of a call, or of a field that takes an argument. -/
  | function
  | leftParen
  /-- The text between parentheses, as it stands. -/
  | argument
  | rightParen
  | leftBrace
  /-- The name of a field. -/
  | fieldName
  | comma
  | rightBrace
  /-- The end of a query that was scanned through. -/
  | endOfInput
  /-- The end of a query that could not be scanned through. -/
  | error (fault : ScanFault)
  deriving DecidableEq, Repr

namespace TokenKind

/-- The name of a kind in messages. -/
def describe : TokenKind → String
  | objectName => "object name"
  | dot => "'.'"
  | function => "function name"
  | leftParen => "'('"
  | argument => "argument"
  | rightParen => "')'"
  | leftBrace => "'\x7b'"
  | fieldName => "field name"
  | comma => "','"
  | rightBrace => "'\x7d'"
  | endOfInput => "end of input"
  | error _ => "error"

/-- Whether no token can follow one of this kind. -/
def isTerminal : TokenKind → Bool
  | endOfInput | error _ => true
  | _ => false

end TokenKind

/-- A token: its kind, its text, and the bytes `start` to `stop` that it covers. The text of a fault is its message. -/
structure Token where
  kind : TokenKind
  text : String
  /-- The offset of the first byte. -/
  start : Nat
  /-- The offset just past the last byte. -/
  stop : Nat
  deriving DecidableEq, Repr

/-- The line that shows a token: the message of a fault, `EOF` for an end with nothing left over, and otherwise the kind between
angle brackets and the quoted text. -/
def Token.display (t : Token) : String :=
  match t.kind with
  | .error fault => fault.message
  | .endOfInput => if t.text = "" then "EOF" else "<" ++ t.kind.describe ++ "> " ++ Text.quoted t.text
  | _ => "<" ++ t.kind.describe ++ "> " ++ Text.quoted t.text

end RecordQuery
