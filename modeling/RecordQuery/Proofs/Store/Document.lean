import Mathlib.Data.Set.Card
import RecordQuery.Proofs.Number.Denotation
import RecordQuery.Proofs.Store.Records

/-!
# Which documents are stores

A document is read as a store exactly if it is an object, each key denotes an id, and under each key there are scalars under
names. Otherwise the fault of the first member with one is reported, even if a later key denotes the same id (`Store.Refuses`). The
records of the store are told by the document alone: under an id, the scalars under the greatest key that denotes it
(`Store.Reads`).
-/

namespace RecordQuery

/-! ## Tables by their keys -/

namespace Table

universe u v

variable {κ : Type u} {α : Type v} [Ord κ] [Std.TransOrd κ]

/-- No key comes twice. -/
theorem nodup_keys (t : Table κ α) : t.keys.Nodup := by
  refine List.pairwise_map.mpr (t.ascending.imp fun {a b} hab heq => ?_)
  rw [heq] at hab
  simp at hab

/-- The size of a table is the number of its keys. -/
theorem size_eq_ncard (t : Table κ α) : t.size = {k | k ∈ t.keys}.ncard := by
  classical
  have hkeys : {k | k ∈ t.keys} = (t.keys.toFinset : Set κ) := by
    ext k
    simp
  rw [hkeys, Set.ncard_coe_finset, List.toFinset_card_of_nodup t.nodup_keys, keys, List.length_map, size]

end Table

/-! ## Scalars -/

namespace Json

/-- Neither a list nor an object. -/
inductive IsScalar : Json → Prop where
  | null : IsScalar .null
  | bool (b : Bool) : IsScalar (.bool b)
  | number (n : JsonNumber) : IsScalar (.number n)
  | string (s : String) : IsScalar (.string s)

/-- The value that a scalar becomes. An integer of 64 bits stays one, and every other number is a floating-point number. -/
inductive Becomes : Json → Value → Prop where
  | null : Becomes .null .null
  | bool (b : Bool) : Becomes (.bool b) (.boolean b)
  | integer (n : Int64) : Becomes (.number (.integer n.toInt)) (.integer n)
  | wide {n : Int} (h : ¬Number.FitsInt64 n) : Becomes (.number (.integer n)) (.float (.ofInt n))
  | float (x : Float) : Becomes (.number (.float x)) (.float x)
  | string (s : String) : Becomes (.string s) (.string s)

variable {j : Json} {v : Value}

/-- A document is read as the value that it becomes. -/
theorem ofJson?_eq_some_iff : Value.ofJson? j = some v ↔ j.Becomes v := by
  constructor
  · intro h
    cases j with
    | null =>
      cases h
      exact .null
    | bool b =>
      cases h
      exact .bool b
    | number n =>
      cases n with
      | integer n =>
        simp only [Value.ofJson?, Option.some.injEq] at h
        split at h
        next hfits =>
          cases h
          have hword : (Int64.ofInt n).toInt = n := Int64.toInt_ofInt_of_le hfits.1 hfits.2
          have hbecomes := Becomes.integer (Int64.ofInt n)
          rwa [hword] at hbecomes
        next hwide =>
          cases h
          exact .wide hwide
      | float x =>
        cases h
        exact .float x
    | string s =>
      cases h
      exact .string s
    | array items => cases h
    | object members => cases h
  · intro h
    cases h with
    | integer n => simp only [Value.ofJson?, if_pos (Number.fitsInt64_toInt n), Int64.ofInt_toInt]
    | wide hwide => simp only [Value.ofJson?, if_neg hwide]
    | _ => rfl

/-- A document is read as no value exactly if it is a list or an object. -/
theorem ofJson?_eq_none_iff : Value.ofJson? j = none ↔ ¬j.IsScalar := by
  constructor
  · rintro h (_ | _ | ⟨_ | _⟩ | _) <;> cases h
  · intro h
    cases j with
    | null => exact absurd .null h
    | bool b => exact absurd (.bool b) h
    | number n => exact absurd (.number n) h
    | string s => exact absurd (.string s) h
    | array items => rfl
    | object members => rfl

/-! ## The first member of a kind -/

/-- The first member of a kind, in the order of the keys. -/
structure Least (P : String × Json → Prop) (members : List (String × Json)) (m : String × Json) : Prop where
  mem : m ∈ members
  holds : P m
  least : ∀ m' ∈ members, P m' → encodeUtf8 m.1 ≤ encodeUtf8 m'.1

namespace Least

variable {P : String × Json → Prop} {members : List (String × Json)} {m m' : String × Json}

theorem head (hasc : Keyed.Ascending Prod.fst (m :: members)) (hm : P m) : Least P (m :: members) m := by
  obtain ⟨hfirst, _⟩ := List.pairwise_cons.mp hasc
  refine ⟨List.mem_cons_self, hm, List.forall_mem_cons.mpr ⟨fun _ => List.le_refl _, fun m' hm' _ => ?_⟩⟩
  exact List.le_of_lt (encodeUtf8_lt_of_compare (hfirst m' hm'))

theorem tail (hm : ¬P m) (h : Least P members m') : Least P (m :: members) m' :=
  ⟨List.mem_cons_of_mem _ h.mem, h.holds, List.forall_mem_cons.mpr ⟨fun hp => absurd hp hm, h.least⟩⟩

/-- There is one first member of a kind. -/
theorem unique (hasc : Keyed.Ascending Prod.fst members) (h : Least P members m) (h' : Least P members m') : m = m' := by
  have hkey : m.1 = m'.1 := encodeUtf8_injective (List.le_antisymm (h.least _ h'.mem h'.holds) (h'.least _ h.mem h.holds))
  exact Keyed.eq_of_key_eq hasc h.mem h'.mem hkey

end Least

end Json

namespace Store

open Json (Least)

/-! ## What a document says -/

/-- A key denotes an id; blanks around it do not count. -/
def DenotesId (key : String) (id : Int64) : Prop := Number.Denotes (Text.trim key.toList) id.toInt

/-- A key that denotes an id, with scalars under names. -/
structure IsEntry (m : String × Json) : Prop where
  key : ∃ id, DenotesId m.1 id
  record : ∃ fields, m.2 = .object fields ∧ ∀ f ∈ fields, f.2.IsScalar

/-- What is wrong with a member: its key, or else what stands under it, or else the first field that is no scalar. -/
inductive EntryFault : String × Json → StoreFault → Prop where
  | badKey {key : String} {j : Json} (h : ∀ id, ¬DenotesId key id) : EntryFault (key, j) (.badKey key)
  | notRecord {key : String} {j : Json} {id : Int64} (hid : DenotesId key id) (hj : ∀ fields, j ≠ .object fields) :
    EntryFault (key, j) (.notRecord id)
  | notScalar {key : String} {fields : List (String × Json)} {id : Int64} {f : String × Json} (hid : DenotesId key id)
      (hf : Least (fun f => ¬f.2.IsScalar) fields f) : EntryFault (key, .object fields) (.notScalar f.1 id)

/-- The document is an object of records under ids. -/
def IsStore (document : Json) : Prop := ∃ members, document = .object members ∧ ∀ m ∈ members, IsEntry m

/-- Why a document is no store. -/
inductive Refuses : Json → StoreError → Prop where
  | notRecords {document : Json} (h : ∀ members, document ≠ .object members) : Refuses document (.malformed .notRecords)
  | entry {members : List (String × Json)} {m : String × Json} {fault : StoreFault}
      (hm : Least (fun m => ¬IsEntry m) members m) (hf : EntryFault m fault) : Refuses (.object members) (.malformed fault)

/-- What stands under the greatest key that denotes an id. -/
structure Latest (members : List (String × Json)) (id : Int64) (key : String) (j : Json) : Prop where
  mem : (key, j) ∈ members
  denotes : DenotesId key id
  greatest : ∀ m ∈ members, DenotesId m.1 id → encodeUtf8 m.1 ≤ encodeUtf8 key

/-- The record has the values of the fields, under their names, and no others. -/
def Fills (fields : List (String × Json)) (r : Record) : Prop :=
  ∀ name v, r.get? name = some v ↔ ∃ j, (name, j) ∈ fields ∧ j.Becomes v

/-- The records of the store are those of the members. -/
structure Reads (members : List (String × Json)) (s : Store) : Prop where
  ids : ∀ id, id ∈ s.records.keys ↔ ∃ m ∈ members, DenotesId m.1 id
  size : s.size = {id | ∃ m ∈ members, DenotesId m.1 id}.ncard
  records : ∀ id r, s.records.get? id = some r ↔ ∃ key fields, Latest members id key (.object fields) ∧ Fills fields r

variable {members fields : List (String × Json)} {m : String × Json} {s : Store} {r : Record} {id : Int64} {key : String}
  {j : Json} {fault fault' : StoreFault}

/-! ## Keys -/

/-- A key is read as the id that it denotes. -/
theorem keyId?_eq_some_iff : keyId? key = some id ↔ DenotesId key id := by
  rw [DenotesId, ← Number.readInt64_eq_ok_iff, keyId?]
  cases Number.readInt64 (Text.trim key.toList) <;> simp [Except.toOption]

/-- A key is read as no id exactly if it denotes none. -/
theorem keyId?_eq_none_iff : keyId? key = none ↔ ∀ id, ¬DenotesId key id := by
  simp only [Option.eq_none_iff_forall_ne_some, ne_eq, keyId?_eq_some_iff]

/-- A key denotes one id at most. -/
theorem DenotesId.unique {id' : Int64} (h : DenotesId key id) (h' : DenotesId key id') : id = id' :=
  Int64.toInt_inj.mp (Number.Denotes.unique h h')

/-- The greatest key that denotes an id is the greatest one that writes it. -/
theorem latest_iff_wins : Latest members id key j ↔ Wins members id key j := by
  constructor
  · rintro ⟨hmem, hid, hgreatest⟩
    exact ⟨hmem, keyId?_eq_some_iff.mpr hid, fun m hm hm' => hgreatest m hm (keyId?_eq_some_iff.mp hm')⟩
  · rintro ⟨hmem, hid, hgreatest⟩
    exact ⟨hmem, keyId?_eq_some_iff.mp hid, fun m hm hm' => hgreatest m hm (keyId?_eq_some_iff.mpr hm')⟩

/-! ## Records -/

/-- A record that has the members as its fields has the values of the fields. -/
theorem fills_of_isRecord (h : IsRecord fields r) : Fills fields r := by
  intro name v
  simp only [h.get?_eq_some_iff, Json.ofJson?_eq_some_iff]

/-- Fields make up one record. -/
theorem Fills.unique {r' : Record} (h : Fills fields r) (h' : Fills fields r') : r = r' :=
  Table.ext_get? fun name => Option.ext fun v => (h name v).trans (h' name v).symm

/-- The members of an object are read as the fields of a record, or the first that is no scalar is reported. -/
theorem readFields_cases (hasc : Keyed.Ascending Prod.fst fields) (id : Int64) (r : Record) :
    (∃ r', readFields id r fields = .ok r') ∧ (∀ f ∈ fields, f.2.IsScalar) ∨
      ∃ f, readFields id r fields = .error (.notScalar f.1 id) ∧ Least (fun f => ¬f.2.IsScalar) fields f := by
  induction fields generalizing r with
  | nil => exact .inl ⟨⟨r, rfl⟩, List.forall_mem_nil _⟩
  | cons f fields ih =>
    obtain ⟨field, j⟩ := f
    unfold readFields
    split
    next hnone => exact .inr ⟨(field, j), rfl, .head hasc (Json.ofJson?_eq_none_iff.mp hnone)⟩
    next value hvalue =>
      have hscalar : j.IsScalar := by
        by_contra hnot
        rw [Json.ofJson?_eq_none_iff.mpr hnot] at hvalue
        cases hvalue
      rcases ih (List.pairwise_cons.mp hasc).2 (r.insert field value) with ⟨hread, hall⟩ | ⟨f, hread, hf⟩
      · exact .inl ⟨hread, List.forall_mem_cons.mpr ⟨hscalar, hall⟩⟩
      · exact .inr ⟨f, hread, hf.tail (not_not_intro hscalar)⟩

/-! ## Members -/

/-- A member with a fault is no record under an id. -/
theorem EntryFault.not_isEntry (h : EntryFault m fault) : ¬IsEntry m := by
  rintro ⟨⟨id, hid⟩, fields, hfields, hall⟩
  cases h with
  | badKey hno => exact hno id hid
  | notRecord _ hj => exact hj fields hfields
  | notScalar _ hf =>
    cases hfields
    exact hf.holds (hall _ hf.mem)

/-- There is one thing wrong with a member. -/
theorem EntryFault.unique (hord : m.2.Ordered) (h : EntryFault m fault) (h' : EntryFault m fault') : fault = fault' := by
  cases h with
  | badKey hno =>
    cases h' with
    | badKey => rfl
    | notRecord hid | notScalar hid => exact absurd hid (hno _)
  | notRecord hid hj =>
    cases h' with
    | badKey hno => exact absurd hid (hno _)
    | notRecord hid' => rw [hid.unique hid']
    | notScalar => exact absurd rfl (hj _)
  | notScalar hid hf =>
    cases h' with
    | badKey hno => exact absurd hid (hno _)
    | notRecord _ hj => exact absurd rfl (hj _)
    | notScalar hid' hf' => rw [hid.unique hid', hf.unique (Json.ordered_object_iff.mp hord).1 hf']

/-- A member is read as a record, or what is wrong with it is reported, whatever stands behind it. -/
theorem readRecords_cons_cases (hord : m.2.Ordered) :
    (∃ id r, IsEntry m ∧ ∀ (s : Store) members, s.readRecords (m :: members) = (s.insert id r).readRecords members) ∨
      ∃ fault, EntryFault m fault ∧ ∀ (s : Store) members, s.readRecords (m :: members) = .error fault := by
  obtain ⟨key, j⟩ := m
  cases hkey : keyId? key with
  | none =>
    refine .inr ⟨_, .badKey (keyId?_eq_none_iff.mp hkey), fun s members => ?_⟩
    simp only [readRecords, hkey]
  | some id =>
    have hid := keyId?_eq_some_iff.mp hkey
    cases j with
    | object fields =>
      rcases readFields_cases (Json.ordered_object_iff.mp hord).1 id .empty with ⟨⟨r, hr⟩, hscalars⟩ | ⟨f, hr, hf⟩
      · refine .inl ⟨id, r, ⟨⟨id, hid⟩, fields, rfl, hscalars⟩, fun s members => ?_⟩
        simp only [readRecords, hkey, hr]
      · refine .inr ⟨_, .notScalar hid hf, fun s members => ?_⟩
        simp only [readRecords, hkey, hr]
    | _ =>
      refine .inr ⟨_, .notRecord hid (by simp), fun s members => ?_⟩
      simp only [readRecords, hkey]

/-- The members of an object are read as records, or the fault of the first one with a fault is reported. -/
theorem readRecords_cases (hord : (Json.object members).Ordered) (s : Store) :
    (∃ s', s.readRecords members = .ok s') ∧ (∀ m ∈ members, IsEntry m) ∨
      ∃ m fault, s.readRecords members = .error fault ∧ Least (fun m => ¬IsEntry m) members m ∧ EntryFault m fault := by
  induction members generalizing s with
  | nil => exact .inl ⟨⟨s, rfl⟩, List.forall_mem_nil _⟩
  | cons m members ih =>
    obtain ⟨hasc, hall⟩ := Json.ordered_object_iff.mp hord
    obtain ⟨hm, hmembers⟩ := List.forall_mem_cons.mp hall
    rcases readRecords_cons_cases hm with ⟨id, r, hentry, hstep⟩ | ⟨fault, hf, hstep⟩
    · rw [hstep]
      rcases ih (.object (List.pairwise_cons.mp hasc).2 hmembers) (s.insert id r) with
        ⟨hread, hentries⟩ | ⟨m', fault, hread, hleast, hf⟩
      · exact .inl ⟨hread, List.forall_mem_cons.mpr ⟨hentry, hentries⟩⟩
      · exact .inr ⟨m', fault, hread, hleast.tail (not_not_intro hentry), hf⟩
    · exact .inr ⟨m, fault, hstep s members, .head hasc hf.not_isEntry, hf⟩

/-! ## Documents -/

/-- Under each id there is what the members say, if they are read. -/
theorem reads_of_ofJson (hord : (Json.object members).Ordered) (h : ofJson (.object members) = .ok s) : Reads members s := by
  have hids (id : Int64) : id ∈ s.records.keys ↔ ∃ m ∈ members, DenotesId m.1 id := by
    rw [Table.mem_keys_iff]
    rcases get?_of_readRecords hord (readRecords_of_ofJson h) id with ⟨hnone, hget⟩ | ⟨key, fields, r, hwins, _, hget⟩
    · refine ⟨fun hne => absurd hget hne, ?_⟩
      rintro ⟨m, hm, hid⟩
      exact absurd (keyId?_eq_some_iff.mpr hid) (hnone m hm)
    · rw [hget]
      exact ⟨fun _ => ⟨_, hwins.mem, keyId?_eq_some_iff.mp hwins.writes⟩, fun _ => Option.some_ne_none r⟩
  refine ⟨hids, ?_, fun id r => ⟨fun hr => ?_, ?_⟩⟩
  · simp only [size, Table.size_eq_ncard, hids]
  · obtain ⟨key, fields, hwins, hrecord⟩ := exists_wins_of_get? hord h hr
    exact ⟨key, fields, latest_iff_wins.mpr hwins, fills_of_isRecord hrecord⟩
  · rintro ⟨key, fields, hlatest, hfills⟩
    obtain ⟨_, r', hfields, hrecord, hget⟩ := (latest_iff_wins.mp hlatest).exists_record hord h
    cases hfields
    rw [hget, hfills.unique (fills_of_isRecord hrecord)]

/-- A document is read as a store, or refused. -/
theorem ofJson_cases {document : Json} (hord : document.Ordered) :
    (∃ s, ofJson document = .ok s) ∧ IsStore document ∨ ∃ e, ofJson document = .error e ∧ Refuses document e := by
  cases hord with
  | @object members hasc hall =>
    rcases readRecords_cases (.object hasc hall) empty with ⟨⟨s, hs⟩, hentries⟩ | ⟨m, fault, hread, hm, hf⟩
    · exact .inl ⟨⟨s, by rw [ofJson, hs]; rfl⟩, members, rfl, hentries⟩
    · exact .inr ⟨_, by rw [ofJson, hread]; rfl, .entry hm hf⟩
  | _ => exact .inr ⟨_, rfl, .notRecords (by simp)⟩

/-- What is read as a store is an object of records under ids. -/
theorem isStore_of_ofJson {document : Json} (hord : document.Ordered) (h : ofJson document = .ok s) : IsStore document := by
  rcases ofJson_cases hord with ⟨_, hstore⟩ | ⟨e, hread, _⟩
  · exact hstore
  · rw [h] at hread
    cases hread

/-- Each key of a document that is read denotes an id, and under it there is the record of the greatest key that does. -/
theorem exists_latest_of_mem (hord : (Json.object members).Ordered) (h : ofJson (.object members) = .ok s)
    (hm : m ∈ members) :
    ∃ id key fields r, DenotesId m.1 id ∧ Latest members id key (.object fields) ∧ Fills fields r ∧
      s.records.get? id = some r := by
  obtain ⟨_, hobject, hall⟩ := isStore_of_ofJson hord h
  cases hobject
  obtain ⟨id, hid⟩ := (hall m hm).key
  have hreads := reads_of_ofJson hord h
  have hkey := (hreads.ids id).mpr ⟨m, hm, hid⟩
  obtain ⟨r, hr⟩ := Option.ne_none_iff_exists'.mp (Table.mem_keys_iff.mp hkey)
  obtain ⟨key, fields, hlatest, hfills⟩ := (hreads.records id r).mp hr
  exact ⟨id, key, fields, r, hid, hlatest, hfills, hr⟩

/-- A document with a fault is no store. -/
theorem Refuses.not_isStore {document : Json} {e : StoreError} (h : Refuses document e) : ¬IsStore document := by
  rintro ⟨members, rfl, hall⟩
  cases h with
  | notRecords hnot => exact hnot members rfl
  | entry hm => exact hm.holds (hall _ hm.mem)

/-- There is one thing wrong with a document. -/
theorem Refuses.unique {document : Json} {e e' : StoreError} (hord : document.Ordered) (h : Refuses document e)
    (h' : Refuses document e') : e = e' := by
  cases h with
  | notRecords hnot =>
    cases h' with
    | notRecords => rfl
    | entry => exact absurd rfl (hnot _)
  | entry hm hf =>
    cases h' with
    | notRecords hnot => exact absurd rfl (hnot _)
    | entry hm' hf' =>
      obtain ⟨hasc, hall⟩ := Json.ordered_object_iff.mp hord
      cases hm.unique hasc hm'
      rw [hf.unique (hall _ hm.mem) hf']

/-- A document whose keys ascend is read exactly if it is an object of records under ids, and then as the store of these records.
Otherwise what is wrong with the first member that is no record is reported. -/
theorem ofJson_told {document : Json} (hord : document.Ordered) :
    ((∃ s, ofJson document = .ok s) ↔ IsStore document) ∧
      (∀ members s, document = .object members → ofJson document = .ok s → Reads members s) ∧
      ∀ e, ofJson document = .error e ↔ Refuses document e := by
  refine ⟨?_, ?_, fun e => ?_⟩
  · rcases ofJson_cases hord with ⟨hread, hstore⟩ | ⟨e, hread, hrefused⟩
    · exact ⟨fun _ => hstore, fun _ => hread⟩
    · rw [hread]
      exact ⟨nofun, fun hstore => absurd hstore hrefused.not_isStore⟩
  · rintro members s rfl hread
    exact reads_of_ofJson hord hread
  · rcases ofJson_cases hord with ⟨⟨s, hread⟩, hstore⟩ | ⟨e', hread, hrefused⟩
    · rw [hread]
      exact ⟨nofun, fun he => absurd hstore he.not_isStore⟩
    · rw [hread, Except.error.injEq]
      constructor
      · rintro rfl
        exact hrefused
      · exact fun he => hrefused.unique hord he

/-- A document in which a later key denotes the id of a member with a fault. -/
def overwritten : Json := .object [(" 1", .object [("a", .array [])]), ("1", .object [("b", .null)])]

/-- The fault is reported, although the record would be replaced. -/
theorem ofJson_told_overwritten : overwritten.Ordered ∧ ofJson overwritten = .error (.malformed (.notScalar "a" 1)) := by
  have hparse : Json.parse "\x7b\"1\":\x7b\"b\":null\x7d,\" 1\":\x7b\"a\":[]\x7d\x7d" = .ok overwritten := rfl
  have hord : overwritten.Ordered := Json.ordered_of_parse hparse
  have hid : DenotesId " 1" 1 := keyId?_eq_some_iff.mp rfl
  have hfield : Least (fun f => ¬f.2.IsScalar) [("a", Json.array [])] ("a", .array []) :=
    .head (List.pairwise_singleton _ _) nofun
  have hfault : EntryFault (" 1", .object [("a", .array [])]) (.notScalar "a" 1) := .notScalar hid hfield
  have hasc := (Json.ordered_object_iff.mp hord).1
  exact ⟨hord, ((ofJson_told hord).2.2 _).mpr (.entry (.head hasc hfault.not_isEntry) hfault)⟩

end Store

end RecordQuery
