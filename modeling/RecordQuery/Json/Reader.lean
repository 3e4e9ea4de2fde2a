import RecordQuery.Json.Basic
import RecordQuery.Text.Blank

/-!
# Reading JSON

A document is read from left to right, and the first fault ends the reading. Offsets count bytes. A fault about a character that
was looked at but not taken lies just behind the first byte of that character. Strings, lists and objects are read in steps that
take at least one character each, so that with more steps than the text has characters none runs out of them.
-/

namespace RecordQuery

/-- What is wrong with a text that is no document. -/
inductive JsonFault where
  | endInValue
  | endInList
  | endInObject
  | endInString
  | expectedColon
  | expectedCommaInList
  | expectedCommaInObject
  | expectedWord
  | expectedValue
  | keyNotString
  | trailingComma
  | trailingCharacters
  | invalidNumber
  | outOfRange
  | invalidEscape
  | loneSurrogate
  | unpairedSurrogate
  | controlCharacter
  | nestedTooDeep
  deriving DecidableEq, Repr

/-- The words for a fault. -/
def JsonFault.message : JsonFault → String
  | .endInValue => "EOF while parsing a value"
  | .endInList => "EOF while parsing a list"
  | .endInObject => "EOF while parsing an object"
  | .endInString => "EOF while parsing a string"
  | .expectedColon => "expected `:`"
  | .expectedCommaInList => "expected `,` or `]`"
  | .expectedCommaInObject => "expected `,` or `\x7d`"
  | .expectedWord => "expected ident"
  | .expectedValue => "expected value"
  | .keyNotString => "key must be a string"
  | .trailingComma => "trailing comma"
  | .trailingCharacters => "trailing characters"
  | .invalidNumber => "invalid number"
  | .outOfRange => "number out of range"
  | .invalidEscape => "invalid escape"
  | .loneSurrogate => "lone leading surrogate in hex escape"
  | .unpairedSurrogate => "unexpected end of hex escape"
  | .controlCharacter => "control character (\\u0000-\\u001F) found while parsing a string"
  | .nestedTooDeep => "recursion limit exceeded"

/-- A fault and where it lies: lines count from one, columns are the bytes since the line began. -/
structure JsonError where
  fault : JsonFault
  line : Nat
  column : Nat
  deriving DecidableEq, Repr

/-- The words for an error. -/
def JsonError.message (e : JsonError) : String := s!"{e.fault.message} at line {e.line} column {e.column}"

namespace Json

open Text (byteLength isLayout)

/-- A fault at a byte of the text. -/
structure Failure where
  fault : JsonFault
  offset : Nat
  deriving DecidableEq, Repr

/-- The error that a failure is in its text. -/
def Failure.locate (text : List Char) (f : Failure) : JsonError :=
  let (_, line, lineStart) := text.foldl (fun (offset, line, lineStart) c =>
    let next := offset + c.utf8Size
    if c = '\n' ∧ offset < f.offset then (next, line + 1, next) else (next, line, lineStart)) (0, 1, 0)
  ⟨f.fault, line, f.offset - lineStart⟩

/-- A place in the text: the offset of the first byte that is not read, and the text from there. -/
structure Cursor where
  offset : Nat
  rest : List Char
  deriving DecidableEq, Repr

/-- A value that was read and the place behind it, or why it could not be read. -/
abbrev Outcome (α : Type) := Except Failure (α × Cursor)

namespace Cursor

/-- Fails `n` bytes further on. -/
def failAt {α : Type} (c : Cursor) (n : Nat) (fault : JsonFault) : Except Failure α := .error ⟨fault, c.offset + n⟩

/-- Fails because of the character ahead, or because there is none. -/
def fail {α : Type} (c : Cursor) (fault : JsonFault) : Except Failure α :=
  c.failAt (if c.rest.isEmpty then 0 else 1) fault

/-- Behind the layout characters ahead. -/
def skipLayout (c : Cursor) : Cursor :=
  ⟨c.offset + (c.rest.takeWhile isLayout).length, c.rest.dropWhile isLayout⟩

/-- Behind the one-byte character ahead, after which the text is `rest`. -/
def past (c : Cursor) (rest : List Char) : Cursor := ⟨c.offset + 1, rest⟩

end Cursor

/-- Reads the letters of a word. -/
def readWord : List Char → Cursor → Except Failure Cursor
  | [], c => .ok c
  | letter :: letters, c =>
    match c.rest with
    | [] => c.failAt 0 .endInValue
    | d :: rest => if d = letter then readWord letters (c.past rest) else c.failAt 1 .expectedWord

/-! ## Numbers -/

/-- The digits ahead as numbers, and the place behind them. -/
def takeDigits (c : Cursor) : List Nat × Cursor :=
  let digits := c.rest.takeWhile fun d => (Number.digit? d).isSome
  (digits.filterMap Number.digit?, ⟨c.offset + digits.length, c.rest.drop digits.length⟩)

/-- What the digits of a number come to: `significand * 10 ^ exponent`. -/
structure Parts where
  significand : Nat
  exponent : Int
  deriving DecidableEq, Repr

/-- Whether another digit still fits the word that holds the significand. -/
def fitsWord (significand digit : Nat) : Bool := significand * 10 + digit < UInt64.size

/-- Takes up digits before the point. From the first that does not fit, they only raise the exponent. -/
def wholeDigits (significand : Nat) : List Nat → Parts
  | [] => ⟨significand, 0⟩
  | d :: ds => if fitsWord significand d then wholeDigits (significand * 10 + d) ds else ⟨significand, ds.length + 1⟩

/-- Takes up digits behind the point. From the first that does not fit, they are ignored. -/
def fractionDigits (p : Parts) : List Nat → Parts
  | [] => p
  | d :: ds => if fitsWord p.significand d then fractionDigits ⟨p.significand * 10 + d, p.exponent - 1⟩ ds else p

/-- The greatest exponent that is taken at its word. -/
def maxExponent : Nat := 0x7FFFFFFF

/-- The value of the digits of an exponent, or how many of them it takes to pass `maxExponent`. -/
def exponentDigits (value taken : Nat) : List Nat → Except Nat Nat
  | [] => .ok value
  | d :: ds => if value * 10 + d ≤ maxExponent then exponentDigits (value * 10 + d) (taken + 1) ds else .error (taken + 1)

/-- A power of ten that a floating-point number can hold. -/
def powerOfTen (n : Nat) : Float := Float.ofScientific 1 false n

/-- Divides by `10 ^ n`, in steps as large as a power of ten can be. -/
def divideByPower (x : Float) (n : Nat) : Float :=
  if n ≤ 308 then x / powerOfTen n
  else if x == 0 then x
  else divideByPower (x / powerOfTen 308) (n - 308)
termination_by n
decreasing_by omega

/-- The floating-point number for the parts, unless it is too large: the significand is rounded first, then scaled. -/
def Parts.toFloat? (p : Parts) : Option Float :=
  let x := Float.ofNat p.significand
  if p.exponent < 0 then some (divideByPower x p.exponent.natAbs)
  else if p.exponent ≤ 308 then
    let y := x * powerOfTen p.exponent.natAbs
    if y.isInf then none else some y
  else if x == 0 then some x
  else none

/-- The number for the parts in front of the cursor. -/
def finishFloat (negative : Bool) (p : Parts) (c : Cursor) : Outcome JsonNumber :=
  match p.toFloat? with
  | none => c.failAt 0 .outOfRange
  | some x => .ok (.float (if negative then -x else x), c)

/-- Reads on behind the letter of an exponent. -/
def readExponent (negative : Bool) (p : Parts) (c : Cursor) : Outcome JsonNumber :=
  let (down, c) :=
    match c.rest with
    | '+' :: rest => (false, c.past rest)
    | '-' :: rest => (true, c.past rest)
    | _ => (false, c)
  match takeDigits c with
  | ([], _) => c.fail (if c.rest.isEmpty then .endInValue else .invalidNumber)
  | (ds, behind) =>
    match exponentDigits 0 0 ds with
    | .ok e => finishFloat negative { p with exponent := if down then p.exponent - e else p.exponent + e } behind
    | .error taken =>
      if p.significand ≠ 0 ∧ !down then c.failAt taken .outOfRange
      else .ok (.float (if negative then -0 else 0), behind)

/-- Reads on behind the digits of a number: an exponent, or its end. -/
def readScale (negative : Bool) (p : Parts) (c : Cursor) : Outcome JsonNumber :=
  match c.rest with
  | 'e' :: rest => readExponent negative p (c.past rest)
  | 'E' :: rest => readExponent negative p (c.past rest)
  | _ => finishFloat negative p c

/-- Reads on behind the point of a number. -/
def readFraction (negative : Bool) (p : Parts) (c : Cursor) : Outcome JsonNumber :=
  match takeDigits c with
  | ([], _) => c.fail (if c.rest.isEmpty then .endInValue else .invalidNumber)
  | (ds, c) => readScale negative (fractionDigits p ds) c

/-- The integer for digits that fit a word, unless it is below all words or a zero with a minus sign. -/
def integer? (negative : Bool) (significand : Nat) : Option Int :=
  if !negative then some significand
  else if 0 < significand ∧ significand ≤ 0x8000000000000000 then some (-significand)
  else none

/-- Reads on behind the digits before the point. -/
def readRest (negative : Bool) (p : Parts) (c : Cursor) : Outcome JsonNumber :=
  match c.rest with
  | '.' :: rest => readFraction negative p (c.past rest)
  | 'e' :: rest => readExponent negative p (c.past rest)
  | 'E' :: rest => readExponent negative p (c.past rest)
  | _ =>
    match if p.exponent = 0 then integer? negative p.significand else none with
    | some n => .ok (.integer n, c)
    | none => finishFloat negative p c

/-- Reads a number without its minus sign. A zero in front stands alone. -/
def readUnsigned (negative : Bool) (c : Cursor) : Outcome JsonNumber :=
  match takeDigits c with
  | ([], _) => c.fail (if c.rest.isEmpty then .endInValue else .invalidNumber)
  | (0 :: _ :: _, _) => c.failAt 2 .invalidNumber
  | (ds, c) => readRest negative (wholeDigits 0 ds) c

/-! ## Strings -/

/-- The value of a hexadecimal digit. -/
def hexDigit? (c : Char) : Option Nat :=
  if '0' ≤ c ∧ c ≤ '9' then some (c.toNat - '0'.toNat)
  else if 'a' ≤ c ∧ c ≤ 'f' then some (c.toNat - 'a'.toNat + 10)
  else if 'A' ≤ c ∧ c ≤ 'F' then some (c.toNat - 'A'.toNat + 10)
  else none

/-- Reads four hexadecimal digits, which take four bytes. -/
def readHex (c : Cursor) : Outcome Nat :=
  let ahead := c.rest.take 4
  if byteLength ahead < 4 then c.failAt (byteLength ahead) .endInString
  else
    match ahead.mapM hexDigit? with
    | some ds => .ok (ds.foldl (fun n d => 16 * n + d) 0, ⟨c.offset + 4, c.rest.drop 4⟩)
    | none => c.failAt 4 .invalidEscape

/-- Whether a number is the first half of a surrogate pair. -/
def isLeading (n : Nat) : Bool := 0xD800 ≤ n && n ≤ 0xDBFF

/-- Whether a number is the second half of a surrogate pair. -/
def isTrailing (n : Nat) : Bool := 0xDC00 ≤ n && n ≤ 0xDFFF

/-- Takes one character, which must be the given one. -/
def readPairMark (mark : Char) (c : Cursor) : Except Failure Cursor :=
  match c.rest with
  | [] => c.failAt 0 .endInString
  | d :: rest => if d = mark then .ok (c.past rest) else c.failAt 1 .unpairedSurrogate

/-- Reads the number of a character behind `\u`, and the number of its second half where one is due. -/
def readCodePoint (c : Cursor) : Except Failure (Char × Cursor) := do
  let (n, c) ← readHex c
  if isTrailing n then c.failAt 0 .loneSurrogate
  else if isLeading n then
    let c ← readPairMark '\\' c
    let c ← readPairMark 'u' c
    let (m, c) ← readHex c
    if isTrailing m then .ok (Char.ofNat ((n - 0xD800) * 0x400 + (m - 0xDC00) + 0x10000), c)
    else c.failAt 0 .loneSurrogate
  else .ok (Char.ofNat n, c)

/-- Reads what follows a backslash. -/
def readEscape (c : Cursor) : Outcome Char :=
  match c.rest with
  | [] => c.failAt 0 .endInString
  | '"' :: rest => .ok ('"', c.past rest)
  | '\\' :: rest => .ok ('\\', c.past rest)
  | '/' :: rest => .ok ('/', c.past rest)
  | 'b' :: rest => .ok ('\x08', c.past rest)
  | 'f' :: rest => .ok ('\x0c', c.past rest)
  | 'n' :: rest => .ok ('\n', c.past rest)
  | 'r' :: rest => .ok ('\r', c.past rest)
  | 't' :: rest => .ok ('\t', c.past rest)
  | 'u' :: rest => readCodePoint (c.past rest)
  | _ :: _ => c.failAt 1 .invalidEscape

/-- Reads on within a string, up to its closing quote; `done` holds the characters before, in reverse. -/
def readStringFrom : Nat → List Char → Cursor → Outcome String
  | 0, _, c => c.failAt 0 .endInString
  | steps + 1, done, c =>
    match c.rest with
    | [] => c.failAt 0 .endInString
    | '"' :: rest => .ok (String.ofList done.reverse, c.past rest)
    | '\\' :: rest =>
      match readEscape (c.past rest) with
      | .ok (d, c) => readStringFrom steps (d :: done) c
      | .error e => .error e
    | d :: rest =>
      if d.toNat < 0x20 then c.failAt 1 .controlCharacter
      else readStringFrom steps (d :: done) ⟨c.offset + d.utf8Size, rest⟩

/-- Reads a string behind its opening quote. -/
def readString (steps : Nat) (c : Cursor) : Outcome String := readStringFrom steps [] c

/-! ## Values -/

/-- Reads on within a list, in front of an item; `done` holds the items before, in reverse. -/
def readItems (value : Cursor → Outcome Json) : Nat → List Json → Cursor → Outcome Json
  | 0, _, c => c.fail .endInList
  | steps + 1, done, c =>
    match value c with
    | .error e => .error e
    | .ok (item, c) =>
      let c := c.skipLayout
      match c.rest with
      | [] => c.fail .endInList
      | ']' :: rest => .ok (.array (item :: done).reverse, c.past rest)
      | ',' :: rest =>
        let c := (c.past rest).skipLayout
        match c.rest with
        | [] => c.fail .endInValue
        | ']' :: _ => c.fail .trailingComma
        | _ :: _ => readItems value steps (item :: done) c
      | _ :: _ => c.fail .expectedCommaInList

/-- Reads a list behind its opening bracket. -/
def readList (steps : Nat) (value : Cursor → Outcome Json) (c : Cursor) : Outcome Json :=
  let c := c.skipLayout
  match c.rest with
  | [] => c.fail .endInList
  | ']' :: rest => .ok (.array [], c.past rest)
  | _ :: _ => readItems value steps [] c

/-- Reads a key and the colon behind it. -/
def readKey (steps : Nat) (c : Cursor) : Except Failure (String × Cursor) :=
  match c.rest with
  | '"' :: rest => do
    let (key, c) ← readString steps (c.past rest)
    let c := c.skipLayout
    match c.rest with
    | [] => c.fail .endInObject
    | ':' :: rest => .ok (key, c.past rest)
    | _ :: _ => c.fail .expectedColon
  | _ => c.fail .keyNotString

/-- Reads on within an object, in front of a member; `done` holds the members before, in reverse. -/
def readMembers (key : Cursor → Outcome String) (value : Cursor → Outcome Json) :
    Nat → List (String × Json) → Cursor → Outcome Json
  | 0, _, c => c.fail .endInObject
  | steps + 1, done, c =>
    match key c with
    | .error e => .error e
    | .ok (k, c) =>
      match value c with
      | .error e => .error e
      | .ok (item, c) =>
        let c := c.skipLayout
        match c.rest with
        | [] => c.fail .endInObject
        | '}' :: rest => .ok (.ofMembers ((k, item) :: done).reverse, c.past rest)
        | ',' :: rest =>
          let c := (c.past rest).skipLayout
          match c.rest with
          | [] => c.fail .endInValue
          | '}' :: _ => c.fail .trailingComma
          | _ :: _ => readMembers key value steps ((k, item) :: done) c
        | _ :: _ => c.fail .expectedCommaInObject

/-- Reads an object behind its opening brace. -/
def readObject (steps : Nat) (value : Cursor → Outcome Json) (c : Cursor) : Outcome Json :=
  let c := c.skipLayout
  match c.rest with
  | [] => c.fail .endInObject
  | '}' :: rest => .ok (.object [], c.past rest)
  | _ :: _ => readMembers (readKey steps) value steps [] c

/-- Reads a value that is neither a list nor an object, in front of which nothing is left to skip. -/
def readScalar (steps : Nat) (c : Cursor) : Outcome Json :=
  match c.rest with
  | [] => c.fail .endInValue
  | 'n' :: rest => (readWord ['u', 'l', 'l'] (c.past rest)).map (.null, ·)
  | 't' :: rest => (readWord ['r', 'u', 'e'] (c.past rest)).map (.bool true, ·)
  | 'f' :: rest => (readWord ['a', 'l', 's', 'e'] (c.past rest)).map (.bool false, ·)
  | '"' :: rest => (readString steps (c.past rest)).map fun (s, c) => (.string s, c)
  | '-' :: rest => (readUnsigned true (c.past rest)).map fun (n, c) => (.number n, c)
  | d :: _ =>
    if (Number.digit? d).isSome then (readUnsigned false c).map fun (n, c) => (.number n, c) else c.fail .expectedValue

/-- Reads a value in which at most `depth` lists and objects are nested in each other. -/
def readValue (steps : Nat) : Nat → Cursor → Outcome Json
  | 0, c =>
    let c := c.skipLayout
    match c.rest with
    | '[' :: _ => c.fail .nestedTooDeep
    | '{' :: _ => c.fail .nestedTooDeep
    | _ => readScalar steps c
  | depth + 1, c =>
    let c := c.skipLayout
    match c.rest with
    | '[' :: rest => readList steps (readValue steps depth) (c.past rest)
    | '{' :: rest => readObject steps (readValue steps depth) (c.past rest)
    | _ => readScalar steps c

/-- How many lists and objects may be nested in each other. -/
def maxDepth : Nat := 127

/-- Reads a document, behind which only layout characters may stand. -/
def readDocument (text : List Char) : Except Failure Json := do
  let (j, c) ← readValue (text.length + 1) maxDepth ⟨0, text⟩
  let c := c.skipLayout
  if c.rest.isEmpty then .ok j else c.fail .trailingCharacters

/-- Reads a document. -/
def parse (text : String) : Except JsonError Json :=
  match readDocument text.toList with
  | .ok j => .ok j
  | .error f => .error (f.locate text.toList)

end Json

end RecordQuery
