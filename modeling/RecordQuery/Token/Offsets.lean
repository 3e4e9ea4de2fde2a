import RecordQuery.Token.Scanner

/-!
# Scanning by offsets

A scanner that keeps the whole query and two byte offsets into it: where the next token starts, and how far the scan has come. Each
look at the query takes a slice of it, and there is one only between offsets that stand between two characters. A scanner on a mark
moves over whatever is there and cuts off all that is pending: that this is the mark and nothing else is up to how the mode was
entered.
-/

namespace RecordQuery

namespace Text

/-- The text between two byte offsets; nothing unless both stand between two characters, the first not behind the second. -/
def slice? (text : String) (start stop : Nat) : Option String :=
  if h : String.Pos.Raw.IsValid text ⟨start⟩ ∧ String.Pos.Raw.IsValid text ⟨stop⟩ ∧ start ≤ stop then
    some (String.extract (text.pos ⟨start⟩ h.1) (text.pos ⟨stop⟩ h.2.1))
  else none

/-- A slice does not end before it starts. -/
theorem le_of_slice? {text word : String} {start stop : Nat} (h : slice? text start stop = some word) : start ≤ stop := by
  unfold slice? at h
  split at h
  next hv => exact hv.2.2
  next => cases h

/-- Between an offset and itself there is nothing. -/
theorem eq_empty_of_slice? {text word : String} {offset : Nat} (h : slice? text offset offset = some word) : word = "" := by
  unfold slice? at h
  split at h
  next hv =>
    rw [← Option.some.inj h, String.extract_eq_copy_slice _ _ (String.Pos.le_refl _)]
    exact String.copy_slice_self
  next => cases h

/-- The text without the blanks in front. -/
def trimmedStart (s : String) : String := String.ofList (s.toList.dropWhile isBlank)

end Text

/-- Whether the text of a token is taken without its outer blanks: the name of a call or of a field, and a right brace. -/
def TokenKind.isTrimmed : TokenKind → Bool
  | fieldName | function | rightBrace => true
  | _ => false

/-- A scanner within a query, by byte offsets. -/
structure OffsetScanner where
  /-- The whole query. -/
  query : String
  /-- The offset of the first byte that is neither cut nor dropped. -/
  start : Nat
  /-- The offset of the first byte ahead. -/
  position : Nat
  /-- Whether a field group has been opened. -/
  inFields : Bool
  /-- What to look for; nothing once the last token is out. -/
  mode : Option Scanner.Mode
  deriving DecidableEq, Repr

namespace OffsetScanner

open Text (slice? trimmed trimmedStart isLayout)

/-- The scanner at the start of a query. -/
def ofString (query : String) : OffsetScanner := ⟨query, 0, 0, false, some .objectName⟩

/-- Goes on in another mode. -/
def enter (s : OffsetScanner) (mode : Scanner.Mode) : OffsetScanner := { s with mode := some mode }

/-- Stops. -/
def halt (s : OffsetScanner) : OffsetScanner := { s with mode := none }

/-- Drops the pending text. -/
def drop (s : OffsetScanner) : OffsetScanner := { s with start := s.position }

/-- Moves over a character. -/
def pass (s : OffsetScanner) (c : Char) : OffsetScanner := { s with position := s.position + c.utf8Size }

/-- The text ahead. -/
def ahead? (s : OffsetScanner) : Option String := slice? s.query s.position s.query.utf8ByteSize

/-- The first character ahead, if there is one. -/
def current? (s : OffsetScanner) : Option (Option Char) := s.ahead?.map (·.toList.head?)

/-- Moves over the first character ahead, if there is one. -/
def advance (s : OffsetScanner) : Option OffsetScanner := do
  match ← s.current? with
  | some c => return s.pass c
  | none => return s

/-- A character ahead is one of the query. -/
theorem position_lt_of_current? {s : OffsetScanner} {c : Char} (h : s.current? = some (some c)) :
    s.position < s.query.utf8ByteSize := by
  obtain ⟨text, ht, hc⟩ := Option.map_eq_some_iff.mp h
  refine Nat.lt_of_le_of_ne (Text.le_of_slice? ht) fun heq => ?_
  rw [ahead?, heq] at ht
  rw [Text.eq_empty_of_slice? ht] at hc
  cases hc

/-- Moves over the characters ahead up to the first one that fails the test. -/
def runWhile (s : OffsetScanner) (p : Char → Bool) : Option OffsetScanner :=
  match _h : s.current? with
  | none => none
  | some none => some s
  | some (some c) => if p c then (s.pass c).runWhile p else some s
termination_by s.query.utf8ByteSize - s.position
decreasing_by
  have := position_lt_of_current? _h
  have := c.utf8Size_pos
  simp only [pass]
  omega

/-- Drops the layout characters ahead. -/
def skipLayout (s : OffsetScanner) : Option OffsetScanner := return (← s.runWhile isLayout).drop

/-- Cuts the pending text off as a token. If it is trimmed and nothing is left of it, there is no token. -/
def emit (s : OffsetScanner) (kind : TokenKind) : Option (Option Token × OffsetScanner) := do
  let raw ← slice? s.query s.start s.position
  if kind.isTrimmed then
    let word := trimmed raw
    let start := s.start + (raw.utf8ByteSize - (trimmedStart raw).utf8ByteSize)
    return (if word = "" then none else some ⟨kind, word, start, start + word.utf8ByteSize⟩, s.drop)
  else return (some ⟨kind, raw, s.start, s.start + raw.utf8ByteSize⟩, s.drop)

/-- Cuts the pending text off as a token if there is any, and goes on in another mode. -/
def emitPending (s : OffsetScanner) (kind : TokenKind) (mode : Scanner.Mode) : Option (Option Token × OffsetScanner) := do
  let (token, s) ← if s.start < s.position then s.emit kind else some (none, s)
  return (token, s.enter mode)

/-- Stops with a fault. -/
def failWith (s : OffsetScanner) (fault : ScanFault) : Option Token × OffsetScanner :=
  (some ⟨.error fault, fault.message, s.position, s.position⟩, s.halt)

/-- Stops at the end of the input; all that is neither cut nor dropped is the text of the last token. -/
def finish (s : OffsetScanner) : Option (Option Token × OffsetScanner) := do
  let stop := s.query.utf8ByteSize
  let text ← slice? s.query s.start stop
  return (some ⟨.endOfInput, text, s.start, stop⟩, { s with start := stop, position := stop, mode := none })

/-- Cuts off a delimiter, whatever stands there, and goes on as told. -/
def cutDelimiter (s : OffsetScanner) (kind : TokenKind) (next : OffsetScanner → Option OffsetScanner) :
    Option (Option Token × OffsetScanner) := do
  let (token, s) ← (← s.advance).emit kind
  return (token, ← next s)

/-- Looks for the name of the requested record. A query without a parenthesis or a dot is left uncut. -/
def scanObjectName (s : OffsetScanner) : Option (Option Token × OffsetScanner) := do
  let s ← s.runWhile fun c => c != '(' && c != '.'
  match ← s.current? with
  | none => s.finish
  | some c => s.emitPending .objectName (if c = '(' then .leftParen else .dot)

/-- Looks for the name of a call. -/
def scanFunctionName (s : OffsetScanner) : Option (Option Token × OffsetScanner) := do
  let s ← s.runWhile (· != '(')
  match ← s.current? with
  | none => return s.failWith .functionName
  | some _ => s.emitPending .function .leftParen

/-- Looks for an argument. -/
def scanArgument (s : OffsetScanner) : Option (Option Token × OffsetScanner) := do
  let s ← s.runWhile fun c => c != ')' && c != '\n'
  match ← s.current? with
  | some ')' => s.emitPending .argument .rightParen
  | _ => return s.failWith .argument

/-- Looks for the braces of a field group after an argument. A query may also end there, unless a group is still open. -/
def scanLeftBrace (s : OffsetScanner) : Option (Option Token × OffsetScanner) := do
  match ← s.current? with
  | some '{' => s.cutDelimiter .leftBrace fun s => return (← ({ s with inFields := true }).skipLayout).enter .fields
  | none => if s.inFields then return s.failWith .fieldName else s.finish
  | some _ => return s.failWith .openBrace

/-- Looks for the name of a field, which takes an argument if a parenthesis ends it. -/
def scanFields (s : OffsetScanner) : Option (Option Token × OffsetScanner) := do
  let s ← s.runWhile fun c => !Scanner.isFieldDelimiter c
  match ← s.current? with
  | none => return s.failWith .fieldName
  | some c =>
    if c = '(' then s.emitPending .function .leftParen else s.emitPending .fieldName (Scanner.delimiterMode c)

/-- One step: the token it cuts, if any, and the scanner after it. -/
def step (s : OffsetScanner) : Option (Option Token × OffsetScanner) :=
  match s.mode with
  | none => some (none, s)
  | some .objectName => s.scanObjectName
  | some .dot => s.cutDelimiter .dot fun s => return s.enter .functionName
  | some .functionName => s.scanFunctionName
  | some .leftParen => s.cutDelimiter .leftParen fun s => return s.enter .argument
  | some .argument => s.scanArgument
  | some .rightParen =>
    s.cutDelimiter .rightParen fun s => do
      let s ← s.skipLayout
      return s.enter (if (← s.current?) = some '.' then .dot else .leftBrace)
  | some .leftBrace => s.scanLeftBrace
  | some .fields => s.scanFields
  | some .comma => s.cutDelimiter .comma fun s => return (← s.skipLayout).enter .fields
  | some .rightBrace =>
    s.cutDelimiter .rightBrace fun s => return s.enter (if trimmedStart (← s.ahead?) = "" then .ending else .fields)
  | some .ending => s.finish

/-- The tokens that are cut in a number of steps, and the scanner after them. -/
def run (s : OffsetScanner) : Nat → Option (List Token × OffsetScanner)
  | 0 => some ([], s)
  | n + 1 => do
    let (read, s) ← s.run n
    let (token, s) ← s.step
    return (read ++ token.toList, s)

end OffsetScanner

end RecordQuery
