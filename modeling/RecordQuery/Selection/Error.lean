import RecordQuery.Token.Basic

/-!
# Why a query is no selection
-/

namespace RecordQuery

/-- What the tokens read so far call for. -/
inductive Expectation where
  /-- Any token at all. -/
  | moreInput
  /-- An argument or a call of the requested record. -/
  | argumentOrCall
  | leftParen
  | argumentOrRightParen
  | rightParen
  | functionName
  | leftBrace
  | fieldOrRightBrace
  | rightBrace
  | endOfInput
  deriving DecidableEq, Repr

/-- The words for what is expected. -/
def Expectation.describe : Expectation → String
  | .moreInput => "more input"
  | .argumentOrCall => "'(' or '.'"
  | .leftParen => "'('"
  | .argumentOrRightParen => "argument or ')'"
  | .rightParen => "')'"
  | .functionName => "function name"
  | .leftBrace => "'\x7b'"
  | .fieldOrRightBrace => "field name, ',' or '\x7d'"
  | .rightBrace => "'\x7d'"
  | .endOfInput => "end of input"

/-- Why a query is no selection. -/
inductive ParseError where
  /-- The scan stopped at this byte. -/
  | scan (fault : ScanFault) (offset : Nat)
  /-- The query does not start with the name of a record. -/
  | noRoot (found : TokenKind)
  /-- Another token was expected than the one at this byte. -/
  | unexpected (expected : Expectation) (found : TokenKind) (text : String) (offset : Nat)
  /-- The query ends too early. -/
  | unexpectedEnd (expected : Expectation)
  /-- A field group or a call follows no field name. -/
  | detached (found : TokenKind) (offset : Nat)
  /-- More field groups are nested than allowed. -/
  | tooDeep (limit : Nat)
  deriving DecidableEq, Repr

/-- The words for an error. -/
def ParseError.message : ParseError → String
  | .scan fault offset => s!"parse error: {fault.message} (at byte {offset})"
  | .noRoot found => s!"no root node: query must start with an object name, found {found.describe}"
  | .unexpected expected found text offset =>
    s!"expected {expected.describe}, found {found.describe} {Text.quoted text} at byte {offset}"
  | .unexpectedEnd expected => s!"unexpected end of input, expected {expected.describe}"
  | .detached found offset => s!"{found.describe} at byte {offset} does not follow a field name"
  | .tooDeep limit => s!"selection nested deeper than {limit} levels"

/-- A token came where something else was expected; an end of the input is reported as such. -/
def ParseError.ofToken (expected : Expectation) (t : Token) : ParseError :=
  match t.kind with
  | .endOfInput => .unexpectedEnd expected
  | kind => .unexpected expected kind t.text t.start

end RecordQuery
