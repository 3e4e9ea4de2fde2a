import RecordQuery.Text.Blank
import RecordQuery.Token.Basic

/-!
# Scanning

A scanner cuts a query into tokens from left to right. Its mode says what it looks for next: some modes run over text up to one
of their delimiters, the others stand on the delimiter and cut it off. A mode that runs may find nothing to cut, and then the
delimiter follows at once, so a token is never more than two steps away (`Scanner.size` falls with every step).
-/

namespace RecordQuery

/-- What a scanner looks for. -/
inductive Scanner.Mode where
  /-- The name of the requested record, up to a parenthesis or a dot. -/
  | objectName
  /-- Standing on a dot. -/
  | dot
  /-- The name of a call, up to a parenthesis. -/
  | functionName
  /-- Standing on a left parenthesis. -/
  | leftParen
  /-- An argument, up to a right parenthesis on the same line. -/
  | argument
  /-- Standing on a right parenthesis. -/
  | rightParen
  /-- After an argument that no call follows. -/
  | leftBrace
  /-- Inside a field group. -/
  | fields
  /-- Standing on a comma. -/
  | comma
  /-- Standing on a right brace. -/
  | rightBrace
  /-- After a right brace that only blanks follow. -/
  | ending
  deriving DecidableEq, Repr

/-- A scanner within a query. The bytes before `start` are cut into tokens or dropped, `pending` is run over but not yet cut, and
`rest` is ahead. -/
structure Scanner where
  /-- The offset of the first byte that is neither cut nor dropped. -/
  start : Nat
  /-- The text run over since then. -/
  pending : List Char
  /-- The text ahead. -/
  rest : List Char
  /-- Whether a field group has been opened. -/
  inFields : Bool
  /-- What to look for; nothing once the last token is out. -/
  mode : Option Scanner.Mode
  deriving DecidableEq, Repr

namespace Scanner

open Text (byteLength isBlank isLayout)

/-- The scanner at the start of a query. -/
def ofChars (query : List Char) : Scanner := ⟨0, [], query, false, some .objectName⟩

/-- The scanner at the start of a query. -/
def ofString (query : String) : Scanner := ofChars query.toList

/-- The offset of the first byte ahead. -/
def position (s : Scanner) : Nat := s.start + byteLength s.pending

/-- Goes on in another mode. -/
def enter (s : Scanner) (mode : Mode) : Scanner := { s with mode := some mode }

/-- Stops. -/
def halt (s : Scanner) : Scanner := { s with mode := none }

/-- Runs over the text up to the first character that fails the test. -/
def runWhile (s : Scanner) (p : Char → Bool) : Scanner :=
  { s with pending := s.pending ++ s.rest.takeWhile p, rest := s.rest.dropWhile p }

/-- Drops the pending text. -/
def drop (s : Scanner) : Scanner := { s with start := s.position, pending := [] }

/-- Drops the layout characters ahead. -/
def skipLayout (s : Scanner) : Scanner := (s.runWhile isLayout).drop

/-- The pending text as a token, unless there is none. -/
def verbatim? (s : Scanner) (kind : TokenKind) : Option Token :=
  if s.pending.isEmpty then none else some ⟨kind, String.ofList s.pending, s.start, s.position⟩

/-- The pending text without the blanks at its ends as a token, unless nothing is left of it. -/
def trimmed? (s : Scanner) (kind : TokenKind) : Option Token :=
  let word := Text.trim s.pending
  let start := s.start + byteLength (s.pending.takeWhile isBlank)
  if word.isEmpty then none else some ⟨kind, String.ofList word, start, start + byteLength word⟩

/-- The fault found where the scanner stands. -/
def faultToken (s : Scanner) (fault : ScanFault) : Token := ⟨.error fault, fault.message, s.position, s.position⟩

/-- Stops with a fault. -/
def failWith (s : Scanner) (fault : ScanFault) : Option Token × Scanner := (some (s.faultToken fault), s.halt)

/-- Stops at the end of the input; all that is neither cut nor dropped is the text of the last token. -/
def finish (s : Scanner) : Option Token × Scanner :=
  let text := s.pending ++ s.rest
  let stop := s.start + byteLength text
  (some ⟨.endOfInput, String.ofList text, s.start, stop⟩, { s with start := stop, pending := [], rest := [], mode := none })

/-- Cuts off the delimiter on which the scanner stands and goes on as told. -/
def cutDelimiter (s : Scanner) (kind : TokenKind) (next : Scanner → Scanner) : Option Token × Scanner :=
  match s.rest with
  | [] => (none, s.halt)
  | c :: rest =>
    (some ⟨kind, String.ofList [c], s.position, s.position + c.utf8Size⟩,
      next { s with start := s.position + c.utf8Size, pending := [], rest := rest })

/-- The mode that cuts a delimiter of a field group off. -/
def delimiterMode (c : Char) : Mode :=
  if c = '}' then .rightBrace else if c = '{' then .leftBrace else if c = ',' then .comma else .dot

/-- Whether a character ends a name in a field group. -/
def isFieldDelimiter (c : Char) : Bool := c == '}' || c == '{' || c == ',' || c == '.' || c == '('

/-- Looks for the name of the requested record. A query without a parenthesis or a dot is left uncut. -/
def scanObjectName (s : Scanner) : Option Token × Scanner :=
  let s := s.runWhile fun c => c != '(' && c != '.'
  match s.rest with
  | [] => s.finish
  | c :: _ => (s.verbatim? .objectName, s.drop.enter (if c = '(' then .leftParen else .dot))

/-- Looks for the name of a call. -/
def scanFunctionName (s : Scanner) : Option Token × Scanner :=
  let s := s.runWhile (· != '(')
  match s.rest with
  | [] => s.failWith .functionName
  | _ :: _ => (s.trimmed? .function, s.drop.enter .leftParen)

/-- Looks for an argument. -/
def scanArgument (s : Scanner) : Option Token × Scanner :=
  let s := s.runWhile fun c => c != ')' && c != '\n'
  match s.rest with
  | ')' :: _ => (s.verbatim? .argument, s.drop.enter .rightParen)
  | _ => s.failWith .argument

/-- Looks for the braces of a field group after an argument. A query may also end there, unless a group is still open. -/
def scanLeftBrace (s : Scanner) : Option Token × Scanner :=
  match s.rest with
  | '{' :: _ => s.cutDelimiter .leftBrace fun s => ({ s with inFields := true }).skipLayout.enter .fields
  | [] => if s.inFields then s.failWith .fieldName else s.finish
  | _ :: _ => s.failWith .openBrace

/-- Looks for the name of a field, which takes an argument if a parenthesis ends it. -/
def scanFields (s : Scanner) : Option Token × Scanner :=
  let s := s.runWhile fun c => !isFieldDelimiter c
  match s.rest with
  | [] => s.failWith .fieldName
  | c :: _ =>
    if c = '(' then (s.trimmed? .function, s.drop.enter .leftParen)
    else (s.trimmed? .fieldName, s.drop.enter (delimiterMode c))

/-- One step: the token it cuts, if any, and the scanner after it. -/
def step (s : Scanner) : Option Token × Scanner :=
  match s.mode with
  | none => (none, s)
  | some .objectName => s.scanObjectName
  | some .dot => s.cutDelimiter .dot (·.enter .functionName)
  | some .functionName => s.scanFunctionName
  | some .leftParen => s.cutDelimiter .leftParen (·.enter .argument)
  | some .argument => s.scanArgument
  | some .rightParen =>
    s.cutDelimiter .rightParen fun s =>
      let s := s.skipLayout
      s.enter (if s.rest.head? = some '.' then .dot else .leftBrace)
  | some .leftBrace => s.scanLeftBrace
  | some .fields => s.scanFields
  | some .comma => s.cutDelimiter .comma (·.skipLayout.enter .fields)
  | some .rightBrace => s.cutDelimiter .rightBrace fun s => s.enter (if s.rest.all isBlank then .ending else .fields)
  | some .ending => s.finish

/-- How many steps a mode may take before the text ahead grows shorter. -/
def weight : Option Mode → Nat
  | none => 0
  | some .objectName | some .functionName | some .argument | some .fields => 2
  | _ => 1

/-- What is left to do; every step of a scanner that has not stopped makes it smaller. -/
def size (s : Scanner) : Nat := 2 * s.rest.length + weight s.mode

/-- No mode takes more than two steps before the text ahead grows shorter. -/
theorem weight_le_two (mode : Option Mode) : weight mode ≤ 2 := by
  unfold weight
  split <;> omega

/-- Skipping layout makes the text ahead no longer. -/
theorem rest_length_skipLayout_le (s : Scanner) : s.skipLayout.rest.length ≤ s.rest.length :=
  (List.dropWhile_sublist _).length_le

/-- Cutting a delimiter off makes a scanner smaller, whatever mode it goes on in. -/
theorem size_cutDelimiter_lt {s : Scanner} {kind : TokenKind} {next : Scanner → Scanner} (hs : 0 < weight s.mode)
    (hn : ∀ t : Scanner, (next t).rest.length ≤ t.rest.length) : (s.cutDelimiter kind next).2.size < s.size := by
  unfold cutDelimiter
  split
  next =>
    show 2 * s.rest.length + 0 < 2 * s.rest.length + weight s.mode
    omega
  next c rest hr =>
    have h := hn { s with start := s.position + c.utf8Size, pending := [], rest := rest }
    have hw := weight_le_two (next { s with start := s.position + c.utf8Size, pending := [], rest := rest }).mode
    simp only [size, hr, List.length_cons] at h ⊢
    omega

/-- A step of a scanner that has not stopped makes it smaller. -/
theorem size_step_lt {s : Scanner} (h : s.mode ≠ none) : s.step.2.size < s.size := by
  obtain ⟨start, pending, rest, inFields, mode⟩ := s
  cases mode with
  | none => exact absurd rfl h
  | some mode =>
    have run (p : Char → Bool) : (rest.dropWhile p).length ≤ rest.length := (List.dropWhile_sublist p).length_le
    -- a mode that runs leads to a lighter one, and a mode that cuts a delimiter off makes the text ahead shorter
    cases mode with
    | objectName =>
      simp only [step, scanObjectName]
      have := run fun c => c != '(' && c != '.'
      split
      · simp only [finish, size, weight, List.length_nil]; omega
      · simp only [size, drop, enter, runWhile]
        split <;> simp only [weight] <;> omega
    | functionName =>
      simp only [step, scanFunctionName]
      have := run (· != '(')
      split <;> simp only [failWith, halt, size, drop, enter, runWhile, weight] <;> omega
    | argument =>
      simp only [step, scanArgument]
      have := run fun c => c != ')' && c != '\n'
      split <;> simp only [failWith, halt, size, drop, enter, runWhile, weight] <;> omega
    | fields =>
      simp only [step, scanFields]
      have := run fun c => !isFieldDelimiter c
      split
      · simp only [failWith, halt, size, runWhile, weight]; omega
      · split
        · simp only [size, drop, enter, runWhile, weight]; omega
        · simp only [size, drop, enter, runWhile, delimiterMode]
          split <;> try split <;> try split
          all_goals simp only [weight]; omega
    | leftBrace =>
      simp only [step, scanLeftBrace]
      split
      · exact size_cutDelimiter_lt (by simp [weight]) fun t => rest_length_skipLayout_le _
      · split <;> simp [failWith, halt, finish, size, weight]
      · simp [failWith, halt, size, weight]
    | ending => simp only [step, finish, size, weight, List.length_nil]; omega
    | rightParen => exact size_cutDelimiter_lt (by simp [weight]) fun t => rest_length_skipLayout_le _
    | comma => exact size_cutDelimiter_lt (by simp [weight]) fun t => rest_length_skipLayout_le _
    | dot => exact size_cutDelimiter_lt (by simp [weight]) fun t => Nat.le_refl _
    | leftParen => exact size_cutDelimiter_lt (by simp [weight]) fun t => Nat.le_refl _
    | rightBrace => exact size_cutDelimiter_lt (by simp [weight]) fun t => Nat.le_refl _

/-- The next token and the scanner after it; nothing once the last token is out. -/
def next (s : Scanner) : Option (Token × Scanner) :=
  if _h : s.mode = none then none
  else
    match _hs : s.step with
    | (some t, s') => some (t, s')
    | (none, s') => s'.next
termination_by s.size
decreasing_by
  have := size_step_lt _h
  rwa [_hs] at this

/-- Taking a token makes a scanner smaller. -/
theorem size_next_lt {s s' : Scanner} {t : Token} (h : s.next = some (t, s')) : s'.size < s.size := by
  fun_induction next s with
  | case1 => contradiction
  | case2 s hm u s'' hs =>
    cases h
    have := size_step_lt hm
    rwa [hs] at this
  | case3 s hm s'' hs ih =>
    have := size_step_lt hm
    rw [hs] at this
    exact Nat.lt_trans (ih h) this

/-- The tokens ahead, after those in `acc`, which stand in reverse. -/
def collect (s : Scanner) (acc : List Token) : List Token :=
  match _h : s.next with
  | none => acc.reverse
  | some (t, s') => s'.collect (t :: acc)
termination_by s.size
decreasing_by exact size_next_lt _h

/-- All tokens ahead. -/
def tokens (s : Scanner) : List Token := s.collect []

/-- The scanner after a number of tokens. -/
def advance : Nat → Scanner → Scanner
  | 0, s => s
  | n + 1, s =>
    match s.next with
    | none => s
    | some (_, s') => s'.advance n

end Scanner

end RecordQuery
