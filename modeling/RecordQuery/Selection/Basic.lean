import RecordQuery.Keyed
import RecordQuery.Number.Signed
import RecordQuery.Text.Blank
import RecordQuery.Text.Quoted

/-!
# Selections

What a query asks for: a name, perhaps with an argument and calls, and either nothing below it (a leaf) or a group of fields,
which are selections themselves. The fields of a group stand in ascending order of their names, each name once.
-/

namespace RecordQuery

/-- A call chained onto a selection. -/
structure Call where
  name : String
  /-- The text between the parentheses, if there is any. -/
  argument : Option String
  deriving DecidableEq, Repr

/-- What a selection says before its field group. -/
structure Head where
  name : String
  /-- The text between the parentheses, if there is any. -/
  argument : Option String := none
  /-- The calls in the order of the query. -/
  calls : List Call := []
  deriving DecidableEq, Repr

/-- One requested object or field. -/
inductive Selection where
  /-- A plain field. -/
  | leaf (head : Head)
  /-- An object of which the fields are requested. -/
  | group (head : Head) (fields : List Selection)
  deriving Repr

/-- Why an argument does not name a record. -/
inductive ArgumentError where
  | missing
  /-- The argument, as it stands in the query, is not a signed decimal of 64 bits. -/
  | notNumeric (argument : String) (fault : IntegerFault)
  deriving DecidableEq, Repr

/-- The words for an argument that names no record. -/
def ArgumentError.message : ArgumentError → String
  | .missing => "argument missing"
  | .notNumeric argument _ => "argument not numeric: " ++ Text.quoted argument

namespace Selection

mutual

/-- Equality of selections, by recursion on the tree. -/
def decEq : (a b : Selection) → Decidable (a = b)
  | .leaf h, .leaf k => decidable_of_iff (h = k) (by simp)
  | .group h fs, .group k gs =>
    have := decEqAll fs gs
    decidable_of_iff (h = k ∧ fs = gs) (by simp)
  | .leaf _, .group _ _ => .isFalse (by simp)
  | .group _ _, .leaf _ => .isFalse (by simp)

/-- Equality of lists of selections. -/
def decEqAll : (as bs : List Selection) → Decidable (as = bs)
  | [], [] => .isTrue rfl
  | a :: as, b :: bs =>
    have := decEq a b
    have := decEqAll as bs
    decidable_of_iff (a = b ∧ as = bs) (by simp)
  | [], _ :: _ => .isFalse (by simp)
  | _ :: _, [] => .isFalse (by simp)

end

instance : DecidableEq Selection := decEq

/-- What stands before the field group. -/
def head : Selection → Head
  | leaf h | group h _ => h

/-- The name of the requested object or field. -/
def name (s : Selection) : String := s.head.name

/-- The text between the parentheses after the name. -/
def argument (s : Selection) : Option String := s.head.argument

/-- The calls in the order of the query. -/
def calls (s : Selection) : List Call := s.head.calls

/-- The fields below, in ascending order of their names. -/
def fields : Selection → List Selection
  | leaf _ => []
  | group _ fs => fs

/-- Whether nothing is selected below. -/
def isLeaf : Selection → Bool
  | leaf _ => true
  | group _ _ => false

/-- The names of the fields. -/
def fieldNames (s : Selection) : List String := s.fields.map name

/-- The names of the fields that are leaves: what a store is asked for. -/
def plainFields (s : Selection) : List String := (s.fields.filter isLeaf).map name

/-- The field with a name. -/
def field? (s : Selection) (n : String) : Option Selection := Keyed.find? name n s.fields

mutual

/-- The number of field groups nested in each other, this selection's own included. -/
def height : Selection → Nat
  | leaf _ => 0
  | group _ fs => 1 + heightAll fs

/-- The greatest height of the fields of a group. -/
def heightAll : List Selection → Nat
  | [] => 0
  | f :: fs => max f.height (heightAll fs)

end

/-- Whether two selections ask for the same things below them. -/
def SameFields (a b : Selection) : Prop := a.isLeaf = b.isLeaf ∧ a.fields = b.fields

instance (a b : Selection) : Decidable (SameFields a b) := inferInstanceAs (Decidable (_ ∧ _))

/-- The id of the record that the argument names; blanks around it do not count. -/
def recordId (s : Selection) : Except ArgumentError Int64 :=
  match s.argument with
  | none => .error .missing
  | some argument =>
    match Number.readInt64 (Text.trim argument.toList) with
    | .ok n => .ok n
    | .error fault => .error (.notNumeric argument fault)

end Selection

end RecordQuery
