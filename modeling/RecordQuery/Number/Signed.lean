/-!
# Signed decimals of 64 bits

Reading an integer from decimal digits with an optional sign. The digits are read from the left, and the first one that is no
digit or that takes the value out of range decides what is wrong.
-/

namespace RecordQuery

/-- Why a text is not a signed decimal of 64 bits. -/
inductive IntegerFault where
  | empty
  | invalidDigit
  | tooLarge
  | tooSmall
  deriving DecidableEq, Repr

/-- The words for a fault. -/
def IntegerFault.message : IntegerFault → String
  | .empty => "cannot parse integer from empty string"
  | .invalidDigit => "invalid digit found in string"
  | .tooLarge => "number too large to fit in target type"
  | .tooSmall => "number too small to fit in target type"

namespace Number

/-- The value of a decimal digit. -/
def digit? (c : Char) : Option Nat := if '0' ≤ c ∧ c ≤ '9' then some (c.toNat - '0'.toNat) else none

/-- The range of a signed word of 64 bits. -/
def FitsInt64 (n : Int) : Prop := -0x8000000000000000 ≤ n ∧ n < 0x8000000000000000

instance (n : Int) : Decidable (FitsInt64 n) := inferInstanceAs (Decidable (_ ∧ _))

/-- Reads on after digits worth `value`; each further digit adds to it or, after a minus sign, subtracts. -/
def readDigits (negative : Bool) (value : Int) : List Char → Except IntegerFault Int
  | [] => .ok value
  | c :: cs =>
    match digit? c with
    | none => .error .invalidDigit
    | some d =>
      let value := if negative then 10 * value - d else 10 * value + d
      if FitsInt64 value then readDigits negative value cs
      else .error (if negative then .tooSmall else .tooLarge)

/-- Reads at least one digit. -/
def readMagnitude (negative : Bool) : List Char → Except IntegerFault Int
  | [] => .error .invalidDigit
  | cs => readDigits negative 0 cs

/-- Reads an optional sign and at least one digit. -/
def readSigned : List Char → Except IntegerFault Int
  | [] => .error .empty
  | '+' :: cs => readMagnitude false cs
  | '-' :: cs => readMagnitude true cs
  | cs => readMagnitude false cs

/-- Reads a signed decimal of 64 bits. -/
def readInt64 (cs : List Char) : Except IntegerFault Int64 := (readSigned cs).map Int64.ofInt

/-- The digits of an integer, after a minus sign if it is negative. -/
def writeInt (n : Int) : List Char :=
  if n < 0 then '-' :: Nat.toDigits 10 n.natAbs else Nat.toDigits 10 n.natAbs

end Number

end RecordQuery
