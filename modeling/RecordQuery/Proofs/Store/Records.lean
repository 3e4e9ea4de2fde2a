import RecordQuery.Proofs.Json.Ordered
import RecordQuery.Proofs.Text.Encoding
import RecordQuery.Store

/-!
# Stores read from documents

The members of an object that is in order are read in the order of their keys. So the fields of a record are the members as they
stand (`IsRecord`), and of several keys that write the same id the greatest one wins (`Wins`).
-/

namespace RecordQuery.Store

variable {members fields : List (String × Json)} {s s' : Store} {r r' : Record} {id : Int64} {name key key' : String}
  {j j' : Json}

/-! ## Records -/

/-- The record has the members of an object as its fields. -/
def IsRecord (fields : List (String × Json)) (r : Record) : Prop :=
  (r.entries.map fun e => (e.1, some e.2)) = fields.map fun m => (m.1, Value.ofJson? m.2)

/-- A member whose name is greater than those of all fields becomes the last field. -/
theorem entries_of_readFields (hasc : Keyed.Ascending Prod.fst fields)
    (hr : ∀ e ∈ r.entries, ∀ m ∈ fields, compare e.1 m.1 = .lt) (h : readFields id r fields = .ok r') :
    (r'.entries.map fun e => (e.1, some e.2)) =
      (r.entries.map fun e => (e.1, some e.2)) ++ fields.map fun m => (m.1, Value.ofJson? m.2) := by
  induction fields generalizing r with
  | nil =>
    cases h
    simp
  | cons m fields ih =>
    obtain ⟨field, j⟩ := m
    obtain ⟨hfirst, hfields⟩ := List.pairwise_cons.mp hasc
    unfold readFields at h
    split at h
    next => cases h
    next value hvalue =>
      have hlt : ∀ e ∈ r.entries, compare e.1 field = .lt := fun e he => hr e he _ List.mem_cons_self
      have hentries : (r.insert field value).entries = r.entries ++ [(field, value)] := Keyed.insert_eq_append hlt
      have hnext : ∀ e ∈ (r.insert field value).entries, ∀ m ∈ fields, compare e.1 m.1 = .lt := by
        intro e he m hm
        rw [hentries, List.mem_append, List.mem_singleton] at he
        rcases he with he | rfl
        · exact hr e he m (List.mem_cons_of_mem _ hm)
        · exact hfirst m hm
      rw [ih hfields hnext h, hentries]
      simp [hvalue]

/-- The members of an object that are read one after the other are the fields of a record. -/
theorem isRecord_of_readFields (hasc : Keyed.Ascending Prod.fst fields) (h : readFields id .empty fields = .ok r) :
    IsRecord fields r :=
  entries_of_readFields hasc (List.forall_mem_nil _) h

namespace IsRecord

/-- A field of the record is a member with the scalar of the value. -/
theorem get?_eq_some_iff (h : IsRecord fields r) {v : Value} :
    r.get? name = some v ↔ ∃ j, (name, j) ∈ fields ∧ Value.ofJson? j = some v := by
  have hmem : (name, v) ∈ r.entries ↔ (name, some v) ∈ r.entries.map fun e => (e.1, some e.2) := by
    simp
  rw [Table.get?_eq_some_iff, hmem, h]
  simp

/-- A field has the scalar of the member of this name. -/
theorem get?_of_mem (h : IsRecord fields r) (hj : (name, j) ∈ fields) :
    r.get? name ≠ none ∧ r.get? name = Value.ofJson? j := by
  have hmem : (name, Value.ofJson? j) ∈ r.entries.map fun e => (e.1, some e.2) := by
    rw [h]
    exact List.mem_map_of_mem hj
  obtain ⟨⟨name', v⟩, he, heq⟩ := List.mem_map.mp hmem
  obtain ⟨rfl, hv⟩ := Prod.mk.inj heq
  rw [Table.get?_eq_some_iff.mpr he, ← hv]
  exact ⟨Option.some_ne_none v, rfl⟩

/-- The names of the fields are those of the members. -/
theorem get?_ne_none_iff (h : IsRecord fields r) : r.get? name ≠ none ↔ ∃ j, (name, j) ∈ fields := by
  constructor
  · intro hne
    obtain ⟨v, hv⟩ := Option.ne_none_iff_exists'.mp hne
    obtain ⟨j, hj, _⟩ := h.get?_eq_some_iff.mp hv
    exact ⟨j, hj⟩
  · exact fun ⟨j, hj⟩ => (h.get?_of_mem hj).1

end IsRecord

/-! ## Stores -/

/-- What stands under a key is what stays under an id: no greater key writes the same id. -/
structure Wins (members : List (String × Json)) (id : Int64) (key : String) (j : Json) : Prop where
  mem : (key, j) ∈ members
  writes : keyId? key = some id
  greatest : ∀ m ∈ members, keyId? m.1 = some id → encodeUtf8 m.1 ≤ encodeUtf8 key

/-- At most one key is the greatest that writes an id, with one value under it. -/
theorem Wins.unique (hasc : Keyed.Ascending Prod.fst members) (h : Wins members id key j) (h' : Wins members id key' j') :
    key = key' ∧ j = j' := by
  have hle := h'.greatest _ h.mem h.writes
  have hge := h.greatest _ h'.mem h'.writes
  have hkey : key = key' := encodeUtf8_injective (List.le_antisymm hle hge)
  exact Prod.mk.inj (Keyed.eq_of_key_eq hasc h.mem h'.mem hkey)

/-- Under an id there is the record of the greatest key that writes it, or what was there before. -/
theorem get?_of_readRecords (hord : (Json.object members).Ordered) (h : s.readRecords members = .ok s') (id : Int64) :
    (∀ m ∈ members, keyId? m.1 ≠ some id) ∧ s'.records.get? id = s.records.get? id ∨
      ∃ key fields r, Wins members id key (.object fields) ∧ IsRecord fields r ∧ s'.records.get? id = some r := by
  induction members generalizing s with
  | nil =>
    cases h
    exact .inl ⟨List.forall_mem_nil _, rfl⟩
  | cons m members ih =>
    obtain ⟨key, j⟩ := m
    obtain ⟨hasc, hall⟩ := Json.ordered_object_iff.mp hord
    obtain ⟨hfirst, hmembers⟩ := List.pairwise_cons.mp hasc
    obtain ⟨hj, hrest⟩ := List.forall_mem_cons.mp hall
    unfold readRecords at h
    split at h
    next => cases h
    next id' hkey =>
      split at h
      next fields =>
        split at h
        next => cases h
        next r hr =>
          have hfields : IsRecord fields r := isRecord_of_readFields (Json.ordered_object_iff.mp hj).1 hr
          rcases ih (.object hmembers hrest) h with ⟨hnone, hget⟩ | ⟨key', fields', r', hwins, hrecord, hget⟩
          · by_cases hid : id' = id
            · subst hid
              -- no key behind the first one writes the id
              have hwins : Wins ((key, .object fields) :: members) id' key (.object fields) := by
                refine ⟨List.mem_cons_self, hkey, List.forall_mem_cons.mpr ⟨fun _ => List.le_refl _, ?_⟩⟩
                exact fun m hm hwrites => absurd hwrites (hnone m hm)
              refine .inr ⟨key, fields, r, hwins, hfields, ?_⟩
              rw [hget, Store.insert, Table.get?_insert, if_pos rfl]
            · refine .inl ⟨List.forall_mem_cons.mpr ⟨?_, hnone⟩, ?_⟩
              · simp [hkey, hid]
              · rw [hget, Store.insert, Table.get?_insert, if_neg (Ne.symm hid)]
          · -- a key behind the first one is greater
            have hlt := encodeUtf8_lt_of_compare (hfirst _ hwins.mem)
            refine .inr ⟨key', fields', r', ⟨List.mem_cons_of_mem _ hwins.mem, hwins.writes, ?_⟩, hrecord, hget⟩
            exact List.forall_mem_cons.mpr ⟨fun _ => List.le_of_lt hlt, hwins.greatest⟩
      next => cases h

/-- The store of a document is what its members are read as, starting from no records. -/
theorem readRecords_of_ofJson (h : ofJson (.object members) = .ok s) : empty.readRecords members = .ok s := by
  rw [ofJson] at h
  cases hs : empty.readRecords members with
  | error fault =>
    rw [hs] at h
    cases h
  | ok s' =>
    rw [hs] at h
    cases h
    rfl

/-- What is loaded as a store is an object. -/
theorem exists_object_of_ofJson (h : ofJson j = .ok s) : ∃ members, j = .object members := by
  cases j with
  | object members => exact ⟨members, rfl⟩
  | _ => cases h

/-- In the store of a document each record stands under the greatest key that writes its id. -/
theorem exists_wins_of_get? (hord : (Json.object members).Ordered) (h : ofJson (.object members) = .ok s)
    (hr : s.records.get? id = some r) : ∃ key fields, Wins members id key (.object fields) ∧ IsRecord fields r := by
  rcases get?_of_readRecords hord (readRecords_of_ofJson h) id with
    ⟨_, hget⟩ | ⟨key, fields, record, hwins, hrecord, hget⟩
  · rw [hget] at hr
    cases hr
  · rw [hget] at hr
    cases hr
    exact ⟨key, fields, hwins, hrecord⟩

/-- In the store of a document the greatest key that writes an id has its record there. -/
theorem Wins.exists_record (hw : Wins members id key j) (hord : (Json.object members).Ordered)
    (h : ofJson (.object members) = .ok s) :
    ∃ fields r, j = .object fields ∧ IsRecord fields r ∧ s.records.get? id = some r := by
  rcases get?_of_readRecords hord (readRecords_of_ofJson h) id with
    ⟨hnone, _⟩ | ⟨key', fields, record, hwins, hrecord, hget⟩
  · exact absurd hw.writes (hnone (key, j) hw.mem)
  · obtain ⟨_, rfl⟩ := hw.unique (Json.ordered_object_iff.mp hord).1 hwins
    exact ⟨fields, record, rfl, hrecord, hget⟩

end RecordQuery.Store
