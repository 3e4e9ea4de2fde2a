import RecordQuery.Text.Printable

/-!
# Quoted text

How a message quotes a piece of a query: between double quotes, with a short escape for the quote, the backslash and four
controls, and with the code point for every other character that has no shape of its own. A quoted text stays on one line.
-/

namespace RecordQuery.Text

/-- The escape of a character that has one of its own. -/
def shortEscape? (c : Char) : Option Char :=
  if c = '\x00' then some '0'
  else if c = '\t' then some 't'
  else if c = '\r' then some 'r'
  else if c = '\n' then some 'n'
  else if c = '"' then some '"'
  else if c = '\\' then some '\\'
  else none

/-- What stands for a character between the quotes: its short escape, its code point in hexadecimal, or itself. -/
def quotedChar (c : Char) : List Char :=
  match shortEscape? c with
  | some e => ['\\', e]
  | none => if isShapeless c then '\\' :: 'u' :: '{' :: (Nat.toDigits 16 c.toNat ++ ['}']) else [c]

/-- The characters of the quoted form. -/
def quotedChars (cs : List Char) : List Char := '"' :: (cs.flatMap quotedChar ++ ['"'])

/-- The quoted form of a text. -/
def quoted (s : String) : String := String.ofList (quotedChars s.toList)

end RecordQuery.Text
