import RecordQuery.Json.Reader
import RecordQuery.Proofs.Keyed

/-!
# Documents in order

In a document that is read the keys of every object ascend, at every depth, whatever the order of the members in the text. So no
key occurs twice, and what goes through the members of an object goes through them in the order of their keys.
-/

namespace RecordQuery.Json

/-- The keys of each object of the document ascend. -/
inductive Ordered : Json → Prop where
  | null : Ordered .null
  | bool (b : Bool) : Ordered (.bool b)
  | number (n : JsonNumber) : Ordered (.number n)
  | string (s : String) : Ordered (.string s)
  | array {items : List Json} (h : ∀ j ∈ items, Ordered j) : Ordered (.array items)
  | object {members : List (String × Json)} (ha : Keyed.Ascending Prod.fst members) (h : ∀ m ∈ members, Ordered m.2) :
    Ordered (.object members)

/-- An object is in order exactly if its own keys ascend and each member is in order. -/
theorem ordered_object_iff {members : List (String × Json)} :
    (object members).Ordered ↔ Keyed.Ascending Prod.fst members ∧ ∀ m ∈ members, m.2.Ordered := by
  refine ⟨fun hord => ?_, fun ⟨ha, h⟩ => .object ha h⟩
  cases hord with
  | object ha h => exact ⟨ha, h⟩

/-- Members put into an object one after the other give an object in order, whatever their own order was. -/
theorem ordered_ofMembers {members : List (String × Json)} (h : ∀ m ∈ members, m.2.Ordered) : (ofMembers members).Ordered :=
  .object (Table.ofList members).ascending fun m hm => h m (Table.mem_of_mem_ofList hm)

/-- What is read, if anything is, is in order. -/
def GivesOrdered (outcome : Outcome Json) : Prop := ∀ j c, outcome = .ok (j, c) → j.Ordered

variable {value : Cursor → Outcome Json} {j : Json} {c : Cursor}

/-- A reader that stops with a document in order gives what is in order. -/
theorem givesOrdered_ok (h : j.Ordered) : GivesOrdered (.ok (j, c)) := by
  intro j' c' hj
  cases hj
  exact h

theorem givesOrdered_error (f : Failure) : GivesOrdered (.error f) := nofun

/-- A reader whose result is made into a document gives what is in order, if all that it makes is. -/
theorem givesOrdered_map {α : Type} {outcome : Except Failure α} {f : α → Json × Cursor} (h : ∀ a, (f a).1.Ordered) :
    GivesOrdered (outcome.map f) := by
  cases outcome with
  | error e => exact givesOrdered_error e
  | ok a => exact givesOrdered_ok (h a)

/-- A scalar holds no object, so it is in order. -/
theorem givesOrdered_readScalar (steps : Nat) (c : Cursor) : GivesOrdered (readScalar steps c) := by
  rw [readScalar]
  split
  · exact givesOrdered_error _
  · exact givesOrdered_map fun _ => .null
  · exact givesOrdered_map fun _ => .bool true
  · exact givesOrdered_map fun _ => .bool false
  · exact givesOrdered_map fun _ => .string _
  · exact givesOrdered_map fun _ => .number _
  · split
    · exact givesOrdered_map fun _ => .number _
    · exact givesOrdered_error _

/-- The items of a list are in order, if those read so far are and each value that is read is. -/
theorem givesOrdered_readItems (hv : ∀ c, GivesOrdered (value c)) (steps : Nat) {done : List Json}
    (hdone : ∀ j ∈ done, j.Ordered) (c : Cursor) : GivesOrdered (readItems value steps done c) := by
  induction steps generalizing done c with
  | zero => exact givesOrdered_error _
  | succ steps ih =>
    rw [readItems]
    cases hc : value c with
    | error e => exact givesOrdered_error e
    | ok read =>
      obtain ⟨item, c'⟩ := read
      have hitems : ∀ j ∈ item :: done, j.Ordered := List.forall_mem_cons.mpr ⟨hv c item c' hc, hdone⟩
      dsimp only
      split
      · exact givesOrdered_error _
      · exact givesOrdered_ok (.array fun j hj => hitems j (List.mem_reverse.mp hj))
      · split
        · exact givesOrdered_error _
        · exact givesOrdered_error _
        · exact ih hitems _
      · exact givesOrdered_error _

/-- An object read member by member is in order, if the values read so far are and each value that is read is. -/
theorem givesOrdered_readMembers {key : Cursor → Outcome String} (hv : ∀ c, GivesOrdered (value c)) (steps : Nat)
    {done : List (String × Json)} (hdone : ∀ m ∈ done, m.2.Ordered) (c : Cursor) :
    GivesOrdered (readMembers key value steps done c) := by
  induction steps generalizing done c with
  | zero => exact givesOrdered_error _
  | succ steps ih =>
    rw [readMembers]
    split
    · exact givesOrdered_error _
    next k behind _ =>
      cases hc : value behind with
      | error e => exact givesOrdered_error e
      | ok read =>
        obtain ⟨item, c'⟩ := read
        have hmembers : ∀ m ∈ (k, item) :: done, m.2.Ordered :=
          List.forall_mem_cons.mpr ⟨hv behind item c' hc, hdone⟩
        dsimp only
        split
        · exact givesOrdered_error _
        · exact givesOrdered_ok (ordered_ofMembers fun m hm => hmembers m (List.mem_reverse.mp hm))
        · split
          · exact givesOrdered_error _
          · exact givesOrdered_error _
          · exact ih hmembers _
        · exact givesOrdered_error _

/-- A list is in order, if each value that is read is. -/
theorem givesOrdered_readList (hv : ∀ c, GivesOrdered (value c)) (steps : Nat) (c : Cursor) :
    GivesOrdered (readList steps value c) := by
  rw [readList]
  split
  · exact givesOrdered_error _
  · exact givesOrdered_ok (.array (List.forall_mem_nil _))
  · exact givesOrdered_readItems hv steps (List.forall_mem_nil _) _

/-- An object is in order, if each value that is read is. -/
theorem givesOrdered_readObject (hv : ∀ c, GivesOrdered (value c)) (steps : Nat) (c : Cursor) :
    GivesOrdered (readObject steps value c) := by
  rw [readObject]
  split
  · exact givesOrdered_error _
  · exact givesOrdered_ok (.object (Keyed.ascending_nil _) (List.forall_mem_nil _))
  · exact givesOrdered_readMembers hv steps (List.forall_mem_nil _) _

/-- A value is in order at every depth: by induction on the depth that is left for what it holds. -/
theorem givesOrdered_readValue (steps depth : Nat) (c : Cursor) : GivesOrdered (readValue steps depth c) := by
  induction depth generalizing c with
  | zero =>
    rw [readValue]
    split
    · exact givesOrdered_error _
    · exact givesOrdered_error _
    · exact givesOrdered_readScalar steps _
  | succ depth ih =>
    rw [readValue]
    split
    · exact givesOrdered_readList ih steps _
    · exact givesOrdered_readObject ih steps _
    · exact givesOrdered_readScalar steps _

/-- What is read up to the end of a text is in order. -/
theorem ordered_of_readDocument {text : List Char} (h : readDocument text = .ok j) : j.Ordered := by
  simp only [readDocument, bind, Except.bind] at h
  cases hv : readValue (text.length + 1) maxDepth ⟨0, text⟩ with
  | error f =>
    rw [hv] at h
    cases h
  | ok read =>
    rw [hv] at h
    dsimp only at h
    split at h
    · cases h
      exact givesOrdered_readValue _ _ _ _ _ hv
    · cases h

/-- What is read from a text is in order. -/
theorem ordered_of_parse {text : String} (h : parse text = .ok j) : j.Ordered := by
  rw [parse] at h
  split at h
  next hd =>
    cases h
    exact ordered_of_readDocument hd
  next => cases h

end RecordQuery.Json
