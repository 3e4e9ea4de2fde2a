/-!
# Keyed lists and tables

A keyed list holds items in strictly ascending order of a key that each item carries, so no key occurs twice and equal lists
are equal tables. `Keyed.insert` puts an item at its place, in the stead of an item with the same key. A `Table` is a keyed list
of pairs together with the fact that its keys ascend.
-/

namespace RecordQuery

namespace Keyed

universe u v

variable {κ : Type u} {α : Type v} [Ord κ]

/-- The keys ascend strictly. -/
def Ascending (key : α → κ) (items : List α) : Prop :=
  items.Pairwise fun a b => compare (key a) (key b) = .lt

/-- Puts an item at the place of its key; an item with the same key is replaced. -/
def insert (key : α → κ) (a : α) : List α → List α
  | [] => [a]
  | b :: items =>
    match compare (key a) (key b) with
    | .lt => a :: b :: items
    | .eq => a :: items
    | .gt => b :: insert key a items

/-- The item with a key, if there is one. -/
def find? (key : α → κ) (k : κ) : List α → Option α
  | [] => none
  | b :: items =>
    match compare k (key b) with
    | .lt => none
    | .eq => some b
    | .gt => find? key k items

theorem ascending_nil (key : α → κ) : Ascending key ([] : List α) := List.Pairwise.nil

/-- After an insertion there is nothing but the new item and what was there before. -/
theorem mem_insert {key : α → κ} {a x : α} {items : List α} (h : x ∈ insert key a items) : x = a ∨ x ∈ items := by
  induction items with
  | nil => simpa [insert] using h
  | cons b items ih =>
    unfold insert at h
    split at h
    · simpa using h
    · simp only [List.mem_cons] at h ⊢
      rcases h with rfl | h
      · exact .inl rfl
      · exact .inr (.inr h)
    · simp only [List.mem_cons] at h ⊢
      rcases h with rfl | h
      · exact .inr (.inl rfl)
      · rcases ih h with rfl | h
        · exact .inl rfl
        · exact .inr (.inr h)

/-- Insertion keeps the keys ascending. -/
theorem ascending_insert [Std.TransOrd κ] {key : α → κ} {a : α} {items : List α} (h : Ascending key items) :
    Ascending key (insert key a items) := by
  induction items with
  | nil => exact List.pairwise_singleton _ _
  | cons b items ih =>
    have hp := List.pairwise_cons.mp h
    unfold insert
    split
    next hlt =>
      refine List.pairwise_cons.mpr ⟨fun x hx => ?_, h⟩
      rcases List.mem_cons.mp hx with rfl | hx
      · exact hlt
      · exact Std.TransCmp.lt_trans hlt (hp.1 x hx)
    next heq =>
      exact List.pairwise_cons.mpr ⟨fun x hx => Std.TransCmp.lt_of_eq_of_lt heq (hp.1 x hx), hp.2⟩
    next hgt =>
      refine List.pairwise_cons.mpr ⟨fun x hx => ?_, ih hp.2⟩
      rcases mem_insert hx with rfl | hx
      · exact Std.OrientedCmp.lt_of_gt hgt
      · exact hp.1 x hx

end Keyed

universe u v

/-- Values under keys, in ascending order of the keys. -/
structure Table (κ : Type u) [Ord κ] (α : Type v) where
  /-- The keys with their values. -/
  entries : List (κ × α)
  /-- No key occurs twice, and the keys ascend. -/
  ascending : Keyed.Ascending Prod.fst entries

namespace Table

variable {κ : Type u} {α : Type v} [Ord κ]

/-- The table without entries. -/
def empty : Table κ α := ⟨[], Keyed.ascending_nil _⟩

instance : EmptyCollection (Table κ α) := ⟨empty⟩

instance : Inhabited (Table κ α) := ⟨empty⟩

/-- Puts a value under a key, in the stead of the value that was there. -/
def insert [Std.TransOrd κ] (t : Table κ α) (k : κ) (a : α) : Table κ α :=
  ⟨Keyed.insert Prod.fst (k, a) t.entries, Keyed.ascending_insert t.ascending⟩

/-- The value under a key. -/
def get? (t : Table κ α) (k : κ) : Option α := (Keyed.find? Prod.fst k t.entries).map Prod.snd

/-- Whether there is a value under a key. -/
def contains (t : Table κ α) (k : κ) : Bool := (t.get? k).isSome

/-- The number of keys. -/
def size (t : Table κ α) : Nat := t.entries.length

/-- Whether there are no keys. -/
def isEmpty (t : Table κ α) : Bool := t.entries.isEmpty

/-- The keys, ascending. -/
def keys (t : Table κ α) : List κ := t.entries.map Prod.fst

/-- Inserts the pairs from left to right, so that of several with one key the last stays. -/
def ofList [Std.TransOrd κ] (entries : List (κ × α)) : Table κ α :=
  entries.foldl (fun t e => t.insert e.1 e.2) empty

end Table

end RecordQuery
