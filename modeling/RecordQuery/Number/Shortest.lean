/-!
# Shortest decimals

The decimal that stands for a binary floating-point number: of the powers of ten some multiple of which reads back as the
number, the coarsest; of its multiples that read back, the nearest to the number. What to do when two are equally near is left to
the caller.
-/

namespace RecordQuery.Number

/-- A positive number `significand * 2 ^ exponent` and the spacing of its neighbours. -/
structure Binary where
  significand : Nat
  exponent : Int
  /-- Whether the next smaller number is only half a unit of the last place away. -/
  halfBelow : Bool
  deriving DecidableEq, Repr

/-- A number `digits * 10 ^ exponent`. -/
structure Decimal where
  digits : Nat
  exponent : Int
  deriving DecidableEq, Repr

/-- Which of two equally near decimals stands for a number. -/
inductive Tie where
  /-- The greater one. -/
  | up
  /-- The one whose last digit is even. -/
  | even
  deriving DecidableEq, Repr

namespace Binary

/-- The first significand of full length: one that needs all 53 bits. -/
def fullLength : Nat := 0x10000000000000

/-- The magnitude of a finite number of 64 bits that is not zero. -/
def ofFloat (x : Float) : Binary :=
  let bits := x.toBits.toNat
  let fraction : Nat := bits % fullLength
  let scale : Nat := bits / fullLength % 0x800
  if scale = 0 then ⟨fraction, -1074, false⟩ else ⟨fullLength + fraction, scale - 1075, fraction = 0 && scale != 1⟩

/-- The length of a quarter of a unit of the last place and of a step of the grid `10 ^ k`, in one common measure. -/
def measures (b : Binary) (k : Int) : Nat × Nat :=
  (Nat.pow 2 (b.exponent - 2).toNat * Nat.pow 10 (-k).toNat, Nat.pow 10 k.toNat * Nat.pow 2 (2 - b.exponent).toNat)

/-- Whether the `d`-th point of the grid `10 ^ k` reads back as the number: it lies between the midpoints to the neighbours, or on
one of them if the significand is even. -/
def ReadsBack (b : Binary) (k : Int) (d : Nat) : Prop :=
  let (quarter, step) := b.measures k
  let lower := (4 * b.significand - if b.halfBelow then 1 else 2) * quarter
  let upper := (4 * b.significand + 2) * quarter
  if b.significand % 2 = 0 then lower ≤ d * step ∧ d * step ≤ upper else lower < d * step ∧ d * step < upper

instance (b : Binary) (k : Int) (d : Nat) : Decidable (b.ReadsBack k d) := by
  unfold ReadsBack
  infer_instance

/-- The last point of the grid `10 ^ k` that is not above the number. -/
def below (b : Binary) (k : Int) : Nat :=
  let (quarter, step) := b.measures k
  4 * b.significand * quarter / step

/-- Which of the two points around the number on the grid `10 ^ k` is nearer. -/
def nearest (b : Binary) (tie : Tie) (k : Int) : Nat :=
  let (quarter, step) := b.measures k
  let d := b.below k
  match compare (2 * (4 * b.significand * quarter - d * step)) step with
  | .lt => d
  | .gt => d + 1
  | .eq => if tie = .even ∧ d % 2 = 0 then d else d + 1

/-- The nearest point of the grid `10 ^ k` that reads back, if any does. -/
def gridPoint? (b : Binary) (tie : Tie) (k : Int) : Option Nat :=
  let d := b.below k
  if b.ReadsBack k d then
    if b.ReadsBack k (d + 1) then some (b.nearest tie k) else some d
  else if b.ReadsBack k (d + 1) then some (d + 1)
  else none

/-- The exponent of the finest grid that is ever needed: below the distance of the two smallest numbers. -/
def finest : Int := -324

/-- Goes from the grid `n` steps above the finest one towards finer grids, to the first with a point that reads back. -/
def search (b : Binary) (tie : Tie) : Nat → Decimal
  | 0 => ⟨b.nearest tie finest, finest⟩
  | n + 1 =>
    match b.gridPoint? tie (finest + (n + 1)) with
    | some d => ⟨d, finest + (n + 1)⟩
    | none => b.search tie n

/-- The shortest decimal. No number reaches beyond the grid `10 ^ 308`. -/
def shortest (b : Binary) (tie : Tie) : Decimal := b.search tie 632

end Binary

/-- How a number of 64 bits is written. -/
structure FloatStyle where
  /-- Which of two equally near decimals is written. -/
  tie : Tie
  /-- Whether a whole number keeps a point and a zero. -/
  wholePoint : Bool
  /-- The decimal exponents, from and to, that are written without a mark; all if absent. -/
  positional : Option (Int × Int)

namespace FloatStyle

/-- A number of zeros. -/
def zeros (n : Nat) : List Char := List.replicate n '0'

/-- Digits with the point at its place. -/
def writePositional (style : FloatStyle) (digits : List Char) (exponent : Int) : List Char :=
  let n := digits.length
  let whole := (n + exponent).toNat
  if 0 ≤ exponent then digits ++ zeros exponent.toNat ++ if style.wholePoint then ['.', '0'] else []
  else if 0 < n + exponent then digits.take whole ++ '.' :: digits.drop whole
  else '0' :: '.' :: (zeros (-(n + exponent)).toNat ++ digits)

/-- One digit before the point, and the exponent with its sign. -/
def writeScientific (digits : List Char) (exponent : Int) : List Char :=
  let mark := 'e' :: (if exponent < 0 then '-' else '+') :: Nat.toDigits 10 exponent.natAbs
  match digits with
  | d :: e :: ds => d :: '.' :: e :: ds ++ mark
  | ds => ds ++ mark

/-- Writes a positive number. -/
def writePositive (style : FloatStyle) (d : Decimal) : List Char :=
  let digits := Nat.toDigits 10 d.digits
  let scientific := digits.length - 1 + d.exponent
  match style.positional with
  | none => style.writePositional digits d.exponent
  | some (low, high) =>
    if low ≤ scientific ∧ scientific ≤ high then style.writePositional digits d.exponent
    else writeScientific digits scientific

/-- Writes a number; zero keeps its sign. -/
def write (style : FloatStyle) (x : Float) : List Char :=
  let sign := if x.toBits.toNat < 0x8000000000000000 then [] else ['-']
  if x.isNaN then ['N', 'a', 'N']
  else if x.isInf then sign ++ ['i', 'n', 'f']
  else if x == 0 then sign ++ style.writePositional ['0'] 0
  else sign ++ style.writePositive ((Binary.ofFloat x).shortest style.tie)

end FloatStyle

end RecordQuery.Number
