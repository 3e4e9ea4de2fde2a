import RecordQuery.Proofs.Text.Split
import RecordQuery.Selection.Basic

/-!
# The grammar of queries

What a query looks like and what it stands for, without a scanner or a reader. Each rule relates a text to what it denotes:
words are trimmed, arguments and the name of the requested record are kept as they stand, and of several entries of a field
group with one name the last stays. `Body` and `Query` also count how deep field groups are nested.
-/

namespace RecordQuery

namespace Grammar

open Text

/-- The word that a text stands for. -/
def wordOf (text : List Char) : String := String.ofList (trim text)

/-- The argument that the text between parentheses stands for. -/
def argumentOf (text : List Char) : Option String := if text = [] then none else some (String.ofList text)

/-- The fields that the entries of a group stand for, in the order of the text: a later one replaces an earlier one with its
name. -/
def fieldsOf (entries : List Selection) : List Selection :=
  entries.foldl (fun fields e => Keyed.insert Selection.name e fields) []

/-- The name of the requested record. -/
structure RootName (text : List Char) : Prop where
  nonempty : text ≠ []
  avoids : Avoids nameStops text

/-- The name of a call. -/
structure CallName (text : List Char) : Prop where
  avoids : Avoids callStops text
  notBlank : ¬Blank text

/-- The name of a field. -/
structure FieldName (text : List Char) : Prop where
  avoids : Avoids fieldStops text
  notBlank : ¬Blank text

/-- A call: a dot, a name, and an argument in parentheses, which may be empty. -/
inductive CallText : List Char → Call → Prop where
  | intro {name argument : List Char} (hn : CallName name) (ha : Avoids argumentStops argument) :
      CallText ('.' :: (name ++ '(' :: (argument ++ [')']))) ⟨wordOf name, argumentOf argument⟩

/-- Calls, each with layout in front of it. -/
inductive CallsText : List Char → List Call → Prop where
  | nil : CallsText [] []
  | cons {layout text texts : List Char} {c : Call} {cs : List Call} (hl : Layout layout) (h : CallText text c)
      (hs : CallsText texts cs) : CallsText (layout ++ (text ++ texts)) (c :: cs)

/-- What may stand between a name and its field group: an argument or a call, then calls and layout. -/
inductive Qualifier : List Char → Option String → List Call → Prop where
  | argument {argument texts layout : List Char} {cs : List Call} (ha : Avoids argumentStops argument)
      (hs : CallsText texts cs) (hl : Layout layout) :
      Qualifier ('(' :: (argument ++ ')' :: (texts ++ layout))) (argumentOf argument) cs
  | call {text texts layout : List Char} {c : Call} {cs : List Call} (h : CallText text c) (hs : CallsText texts cs)
      (hl : Layout layout) : Qualifier (text ++ (texts ++ layout)) none (c :: cs)

/-- What stands before a nested field group. -/
inductive FieldHead : List Char → Head → Prop where
  | bare {name : List Char} (hn : FieldName name) : FieldHead name ⟨wordOf name, none, []⟩
  | qualified {name text : List Char} {argument : Option String} {calls : List Call} (hn : FieldName name)
      (hq : Qualifier text argument calls) : FieldHead (name ++ text) ⟨wordOf name, argument, calls⟩

/-- What stands between the braces of a field group, its entries, and the number of field groups nested in each other, this
one included. A plain field ends at a comma or at the end of its group. -/
inductive Body : List Char → List Selection → Nat → Prop where
  | done : Body [] [] 1
  | comma {text : List Char} {es : List Selection} {n : Nat} (h : Body text es n) : Body (',' :: text) es n
  | blanks {blanks text : List Char} {es : List Selection} {n : Nat} (hb : Blank blanks) (h : Body text es n) :
      Body (blanks ++ text) es n
  | leaf {name text : List Char} {es : List Selection} {n : Nat} (hn : FieldName name)
      (he : text = [] ∨ text.head? = some ',') (h : Body text es n) :
      Body (name ++ text) (.leaf ⟨wordOf name, none, []⟩ :: es) n
  | group {head inner text : List Char} {owner : Head} {is es : List Selection} {k n : Nat} (ho : FieldHead head owner)
      (hi : Body inner is k) (h : Body text es n) :
      Body (head ++ '{' :: (inner ++ '}' :: text)) (.group owner (fieldsOf is) :: es) (max (k + 1) n)

/-- A query, what it asks for, and the number of its field groups nested in each other. -/
inductive Query : List Char → Selection → Nat → Prop where
  | intro {name text body trailing : List Char} {argument : Option String} {calls : List Call} {es : List Selection}
      {n : Nat} (hn : RootName name) (hq : Qualifier text argument calls) (hb : Body body es n) (ht : Blank trailing) :
      Query (name ++ (text ++ '{' :: (body ++ '}' :: trailing)))
        (.group ⟨String.ofList name, argument, calls⟩ (fieldsOf es)) n

/-- A field group is one group itself, whatever is nested in it. -/
theorem Body.one_le {text : List Char} {es : List Selection} {n : Nat} (h : Body text es n) : 1 ≤ n := by
  induction h with
  | done => exact Nat.le_refl 1
  | comma _ ih => exact ih
  | blanks _ _ ih => exact ih
  | leaf _ _ _ ih => exact ih
  | group _ _ _ _ ih => exact Nat.le_trans ih (Nat.le_max_right _ _)

end Grammar

end RecordQuery
