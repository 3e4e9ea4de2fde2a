import RecordQuery.Json.Basic

/-!
# Writing JSON

Documents as text, on one line without blanks, or with a line for every item and two spaces for every level.
-/

namespace RecordQuery.Json

/-- How a floating-point number is written in a document: decimal exponents from -5 to 15 without a mark, whole numbers with a
point, and of two equally near decimals the even one. -/
def floatStyle : Number.FloatStyle := ⟨.even, true, some (-5, 15)⟩

/-- The digits of a number. -/
def numberChars : JsonNumber → List Char
  | .integer n => Number.writeInt n
  | .float x => floatStyle.write x

/-- The letter of a character that has an escape of its own. -/
def escapeLetter? (c : Char) : Option Char :=
  if c = '"' then some '"'
  else if c = '\\' then some '\\'
  else if c = '\x08' then some 'b'
  else if c = '\x0c' then some 'f'
  else if c = '\n' then some 'n'
  else if c = '\r' then some 'r'
  else if c = '\t' then some 't'
  else none

/-- What stands for a character in a string: its escape, its number if it is a control without one, or itself. -/
def stringChar (c : Char) : List Char :=
  match escapeLetter? c with
  | some e => ['\\', e]
  | none =>
    if c.toNat < 0x20 then ['\\', 'u', '0', '0', Nat.digitChar (c.toNat / 16), Nat.digitChar (c.toNat % 16)] else [c]

/-- A string between its quotes. -/
def stringChars (s : String) : List Char := '"' :: (s.toList.flatMap stringChar ++ ['"'])

mutual

/-- A document without blanks, in front of `rest`. -/
def compactChars (rest : List Char) : Json → List Char
  | .null => 'n' :: 'u' :: 'l' :: 'l' :: rest
  | .bool true => 't' :: 'r' :: 'u' :: 'e' :: rest
  | .bool false => 'f' :: 'a' :: 'l' :: 's' :: 'e' :: rest
  | .number n => numberChars n ++ rest
  | .string s => stringChars s ++ rest
  | .array items => '[' :: compactItems (']' :: rest) items
  | .object members => '{' :: compactMembers ('}' :: rest) members

/-- Items with commas between them, in front of `rest`. -/
def compactItems (rest : List Char) : List Json → List Char
  | [] => rest
  | [j] => compactChars rest j
  | j :: js => compactChars (',' :: compactItems rest js) j

/-- Members with commas between them, in front of `rest`. -/
def compactMembers (rest : List Char) : List (String × Json) → List Char
  | [] => rest
  | [(k, j)] => stringChars k ++ ':' :: compactChars rest j
  | (k, j) :: ms => stringChars k ++ ':' :: compactChars (',' :: compactMembers rest ms) j

end

/-- A new line at a level, in front of `rest`. -/
def newLine (level : Nat) (rest : List Char) : List Char := '\n' :: (List.replicate (2 * level) ' ' ++ rest)

mutual

/-- A document with a line for every item, `level` levels deep, in front of `rest`. -/
def prettyChars (level : Nat) (rest : List Char) : Json → List Char
  | .null => 'n' :: 'u' :: 'l' :: 'l' :: rest
  | .bool true => 't' :: 'r' :: 'u' :: 'e' :: rest
  | .bool false => 'f' :: 'a' :: 'l' :: 's' :: 'e' :: rest
  | .number n => numberChars n ++ rest
  | .string s => stringChars s ++ rest
  | .array [] => '[' :: ']' :: rest
  | .array (j :: js) => '[' :: prettyItems (level + 1) (newLine level (']' :: rest)) (j :: js)
  | .object [] => '{' :: '}' :: rest
  | .object (m :: ms) => '{' :: prettyMembers (level + 1) (newLine level ('}' :: rest)) (m :: ms)

/-- Items, each on a line of its own, in front of `rest`. -/
def prettyItems (level : Nat) (rest : List Char) : List Json → List Char
  | [] => rest
  | [j] => newLine level (prettyChars level rest j)
  | j :: js => newLine level (prettyChars level (',' :: prettyItems level rest js) j)

/-- Members, each on a line of its own, in front of `rest`. -/
def prettyMembers (level : Nat) (rest : List Char) : List (String × Json) → List Char
  | [] => rest
  | [(k, j)] => newLine level (stringChars k ++ ':' :: ' ' :: prettyChars level rest j)
  | (k, j) :: ms =>
    newLine level (stringChars k ++ ':' :: ' ' :: prettyChars level (',' :: prettyMembers level rest ms) j)

end

/-- A document on one line. -/
def compact (j : Json) : String := String.ofList (compactChars [] j)

/-- A document with a line for every item. -/
def pretty (j : Json) : String := String.ofList (prettyChars 0 [] j)

end RecordQuery.Json
