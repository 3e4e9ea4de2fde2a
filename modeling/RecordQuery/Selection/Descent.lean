import RecordQuery.Selection.Reader

/-!
# Reading selections by descent

The parts of a query have a function each: an argument, a chain of calls, a field group. Tokens are taken from the scanner one at
a time. Where the next token decides what comes, it is looked at and held ahead until it is taken. A loop takes at least one
token in each turn, so with more steps than there are tokens none runs out of them.
-/

namespace RecordQuery

namespace Selection

/-- Adds a call behind the others. -/
def pushCall : Selection → Call → Selection
  | leaf h, call => leaf { h with calls := h.calls ++ [call] }
  | group h fields, call => group { h with calls := h.calls ++ [call] } fields

/-- Puts a field below the selection, in the stead of one with the same name. -/
def putField (s field : Selection) : Selection := group s.head (Keyed.insert name field s.fields)

/-- Makes a leaf a group without fields. -/
def promote (s : Selection) : Selection := group s.head s.fields

end Selection

/-- A reader that can hold a token ahead. -/
structure DescentReader where
  scanner : Scanner
  /-- The token that was looked at and is not taken yet. -/
  ahead : Option Token := none
  /-- How many field groups may be nested in each other. -/
  limit : Nat := defaultDepth

namespace DescentReader

/-- What is read with a reader, or the error that ends the reading, and the reader from then on. -/
abbrev Reading (α : Type) := EStateM ParseError DescentReader α

/-- The reader of what a scanner has left. -/
def ofScanner (scanner : Scanner) (limit : Nat := defaultDepth) : DescentReader := { scanner, limit }

/-- The tokens that are not taken yet. -/
def pending (r : DescentReader) : List Token := r.ahead.toList ++ r.scanner.tokens

/-- The token that is held ahead, or else the next one of the scanner. -/
def take (r : DescentReader) : Option Token × DescentReader :=
  match r.ahead with
  | some t => (some t, { r with ahead := none })
  | none =>
    match r.scanner.next with
    | some (t, scanner) => (some t, { r with scanner })
    | none => (none, r)

/-- Takes the next token; a fault of the scan is an error. -/
def advance : Reading Token := do
  let (next, r) := (← get).take
  set r
  match next with
  | none => throw (.unexpectedEnd .moreInput)
  | some t =>
    match t.kind with
    | .error fault => throw (.scan fault t.start)
    | _ => return t

/-- Holds a token ahead. -/
def hold (t : Token) : Reading Unit := modify fun r => { r with ahead := some t }

/-- Looks at the next token, which is held ahead. -/
def peek : Reading Token := do
  match (← get).ahead with
  | some t => return t
  | none =>
    let t ← advance
    hold t
    return t

/-- Takes the next token, which must be of a kind. -/
def expect (kind : TokenKind) (expected : Expectation) : Reading Token := do
  let t ← advance
  if t.kind = kind then return t else throw (.ofToken expected t)

/-- Reads parentheses with an argument or without. -/
def readArgument : Reading (Option String) := do
  let _ ← expect .leftParen .leftParen
  let t ← advance
  match t.kind with
  | .rightParen => return none
  | .argument =>
    let _ ← expect .rightParen .rightParen
    return some t.text
  | _ => throw (.ofToken .argumentOrRightParen t)

/-- Reads calls as long as dots follow. -/
def readCalls : Nat → Reading (List Call)
  | 0 => throw (.unexpectedEnd .moreInput)
  | steps + 1 => do
    if (← peek).kind = .dot then
      let _ ← advance
      let name ← expect .function .functionName
      let argument ← readArgument
      let calls ← readCalls steps
      return { name := name.text, argument } :: calls
    else return []

/-- Fails where a field group is one more than may be nested. -/
def checkDepth (depth : Nat) : Reading Unit := do
  let limit := (← get).limit
  if limit < depth then throw (.tooDeep limit)

/-- The field below a selection to which a mark applies: the one that was read last. -/
def attached (parent : Selection) (last : Option String) (t : Token) : Reading Selection :=
  match last.bind parent.field? with
  | some field => return field
  | none => throw (.detached t.kind t.start)

/-- Reads the fields below a selection, up to the right brace behind them. A call or a field group belongs to the field that was
read last. -/
def readFields : Nat → Nat → Selection → Option String → Reading Selection
  | 0, _, _, _ => throw (.unexpectedEnd .moreInput)
  | steps + 1, depth, parent, last => do
    let t ← advance
    match t.kind with
    | .comma => readFields steps depth parent none
    | .fieldName => readFields steps depth (parent.putField (.leaf { name := t.text })) (some t.text)
    | .function =>
      let argument ← readArgument
      readFields steps depth (parent.putField (.leaf { name := t.text, argument })) (some t.text)
    | .dot =>
      let field ← attached parent last t
      hold t
      let calls ← readCalls (steps + 1)
      readFields steps depth (parent.putField (calls.foldl Selection.pushCall field)) last
    | .leftBrace =>
      let field ← attached parent last t
      checkDepth (depth + 1)
      let field ← readFields steps (depth + 1) field.promote none
      readFields steps depth (parent.putField field) none
    | .rightBrace => return parent
    | .endOfInput => throw (.unexpectedEnd .rightBrace)
    | _ => throw (.ofToken .fieldOrRightBrace t)

/-- Reads the argument of the requested record; without one, a call must follow. -/
def readRootArgument : Reading (Option String) := do
  if (← peek).kind = .leftParen then readArgument
  else if (← peek).kind = .dot then return none
  else
    let t ← advance
    throw (.ofToken .argumentOrCall t)

/-- Reads a whole query. -/
def readQuery : Reading Selection := do
  let steps := (← get).pending.length + 1
  let t ← advance
  if t.kind = .objectName then
    let argument ← readRootArgument
    let calls ← readCalls steps
    let _ ← expect .leftBrace .leftBrace
    checkDepth 1
    let root ← readFields steps 1 (.group { name := t.text, argument, calls } []) none
    let _ ← expect .endOfInput .endOfInput
    return root
  else throw (.noRoot t.kind)

/-- Reads one selection. -/
def read (r : DescentReader) : Except ParseError Selection × DescentReader :=
  match readQuery r with
  | .ok selection r => (.ok selection, r)
  | .error e r => (.error e, r)

end DescentReader

end RecordQuery
