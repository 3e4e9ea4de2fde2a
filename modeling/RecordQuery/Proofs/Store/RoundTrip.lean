import RecordQuery.Proofs.Record.RoundTrip
import RecordQuery.Proofs.Store.Document

/-!
# Stores written and loaded back

A record that is loaded is written again as it stands in the document, if its numbers are kept (`JsonNumber.IsKept`). The other
way round, a store is written as a document with the digits of each id as a key (`Store.outline`). No two ids have the same
digits, so each record has its member there, and the document tells the store that is loaded from it (`Store.Reads`). This is
the store that was written, if the floating-point numbers in it are finite.
-/

namespace RecordQuery

/-! ## Values -/

/-- The number is the same after it is loaded: an integer of 64 bits, or a floating-point number. Only finite ones stand in a
document (`Json.ofFloat`). -/
inductive JsonNumber.IsKept : JsonNumber → Prop where
  | integer {n : Int} (h : Number.FitsInt64 n) : IsKept (.integer n)
  | float {x : Float} (h : x.isFinite = true) : IsKept (.float x)

namespace Value

/-- A value is written as the scalar it was read from, if its number is kept. -/
theorem toJson_of_becomes {j : Json} {v : Value} (h : j.Becomes v) (hkept : ∀ n, j = .number n → n.IsKept) :
    v.toJson = j := by
  cases h with
  | wide hwide =>
    cases hkept _ rfl with
    | integer hfits => exact absurd hfits hwide
  | float x =>
    cases hkept _ rfl with
    | float hx => exact if_pos hx
  | _ => rfl

/-- Only numbers that are kept are written. -/
theorem isKept_of_toJson {v : Value} {n : JsonNumber} (h : v.toJson = .number n) : n.IsKept := by
  cases v with
  | integer k =>
    cases h
    exact .integer (Number.fitsInt64_toInt k)
  | float x =>
    rw [toJson, Json.ofFloat] at h
    split at h
    next hx =>
      cases h
      exact .float hx
    next => cases h
  | null | boolean b | string s => cases h

/-- A value is written as a scalar, also where it is a number that has no form of its own. -/
theorem isScalar_toJson (v : Value) : v.toJson.IsScalar := by
  cases v with
  | null => exact .null
  | boolean b => exact .bool b
  | integer n => exact .number _
  | float x =>
    rw [toJson, Json.ofFloat]
    split
    · exact .number _
    · exact .null
  | string s => exact .string s

end Value

/-- A scalar is in order, as it holds no object. -/
theorem Json.IsScalar.ordered {j : Json} (h : j.IsScalar) : j.Ordered := by
  cases h with
  | null => exact .null
  | bool b => exact .bool b
  | number n => exact .number n
  | string s => exact .string s

/-- The outline of a record is in order, as its fields are. -/
theorem Record.ordered_outline (r : Record) : r.outline.Ordered := by
  refine .object (List.pairwise_map.mpr r.ascending) ?_
  intro m hm
  obtain ⟨e, _, rfl⟩ := List.mem_map.mp hm
  exact e.2.isScalar_toJson.ordered

namespace Store

variable {members fields : List (String × Json)} {s : Store} {r : Record} {id : Int64} {key : String}

/-! ## Records -/

/-- A record is written as the fields it was read from. -/
theorem IsRecord.outline_eq (h : IsRecord fields r) (hkept : ∀ name n, (name, .number n) ∈ fields → n.IsKept) :
    r.outline = .object fields := by
  have hback : ∀ m ∈ fields, (m.1, (Value.ofJson? m.2).elim .null Value.toJson) = m := by
    rintro ⟨name, j⟩ hm
    obtain ⟨hne, hget⟩ := h.get?_of_mem hm
    obtain ⟨v, hv⟩ := Option.ne_none_iff_exists'.mp (hget ▸ hne)
    have hjson : v.toJson = j := by
      refine Value.toJson_of_becomes (Json.ofJson?_eq_some_iff.mp hv) ?_
      rintro n rfl
      exact hkept name n hm
    simp only [hv, Option.elim, hjson]
  have hentries : r.entries.map (fun e => (e.1, e.2.toJson)) = fields := by
    calc
      r.entries.map (fun e => (e.1, e.2.toJson))
        = (r.entries.map fun e => (e.1, some e.2)).map fun e => (e.1, e.2.elim .null Value.toJson) := by
          rw [List.map_map]
          rfl
      _ = fields.map fun m => (m.1, (Value.ofJson? m.2).elim .null Value.toJson) := by
          rw [h, List.map_map]
          rfl
      _ = fields := by rw [List.map_congr_left hback, List.map_id']
  exact congrArg Json.object hentries

/-- A record that is read is written as it stood exactly if its numbers are kept. -/
theorem IsRecord.outline_eq_object_iff (h : IsRecord fields r) :
    r.outline = .object fields ↔ ∀ name n, (name, .number n) ∈ fields → n.IsKept := by
  refine ⟨?_, h.outline_eq⟩
  intro heq name n hmem
  rw [← Json.object.inj heq] at hmem
  obtain ⟨e, _, he⟩ := List.mem_map.mp hmem
  exact Value.isKept_of_toJson (Prod.mk.inj he).2

/-- Whoever asks for all fields under the greatest key of an id is given the record that stands there. -/
theorem exists_get_of_latest (hord : (Json.object members).Ordered) (h : ofJson (.object members) = .ok s)
    (hlatest : Latest members id key (.object fields)) {names : List String}
    (hnames : ∀ name, name ∈ names ↔ name ∈ fields.map Prod.fst) : ∃ r, s.get id names = .ok r ∧ IsRecord fields r := by
  obtain ⟨_, r, hfields, hrecord, hr⟩ := (latest_iff_wins.mp hlatest).exists_record hord h
  cases hfields
  have hkeys : ∀ name, name ∈ names ↔ name ∈ r.keys := by
    intro name
    rw [hnames, Table.mem_keys_iff, hrecord.get?_ne_none_iff]
    simp
  refine ⟨r, ?_, hrecord⟩
  rw [get, hr]
  simp only [Record.project_of_mem_iff hkeys]
  rfl

/-- What a finite record is written as has its values again. -/
theorem fills_outline (h : r.IsFinite) : Fills (r.entries.map fun (name, value) => (name, value.toJson)) r :=
  fills_of_isRecord (isRecord_of_readFields (List.pairwise_map.mpr r.ascending) (readFields_outline h 0))

/-! ## Stores -/

/-- The records of a store, each under the digits of its id. -/
def written (s : Store) : List (String × Json) := s.records.entries.map fun (id, r) => (idText id, r.outline)

/-- A store as a document. -/
def outline (s : Store) : Json := .ofMembers s.written

theorem denotesId_idText (id : Int64) : DenotesId (idText id) id := keyId?_eq_some_iff.mp (keyId?_idText id)

/-- No two ids have the same digits. -/
theorem idText_injective : Function.Injective idText := by
  intro id id' heq
  exact (denotesId_idText id).unique (heq ▸ denotesId_idText id')

/-- The members of the document of a store are its records. -/
theorem mem_outline_iff {m : String × Json} :
    m ∈ (Table.ofList s.written).entries ↔ ∃ id r, s.records.get? id = some r ∧ m = (idText id, r.outline) := by
  have hkeys : s.written.map Prod.fst = s.records.keys.map idText := by
    rw [written, Table.keys, List.map_map, List.map_map]
    rfl
  have hnodup : (s.written.map Prod.fst).Nodup := hkeys ▸ s.records.nodup_keys.map idText_injective
  rw [Table.mem_ofList_iff hnodup, written, List.mem_map]
  constructor
  · rintro ⟨⟨id, r⟩, hmem, rfl⟩
    exact ⟨id, r, Table.get?_eq_some_iff.mpr hmem, rfl⟩
  · rintro ⟨id, r, hr, rfl⟩
    exact ⟨(id, r), Table.get?_eq_some_iff.mp hr, rfl⟩

/-- The document of a store is in order. -/
theorem ordered_outline (s : Store) : s.outline.Ordered := by
  apply Json.ordered_ofMembers
  intro m hm
  obtain ⟨⟨id, r⟩, _, rfl⟩ := List.mem_map.mp hm
  exact r.ordered_outline

/-- The document of a store is an object of records under ids. -/
theorem isStore_outline (s : Store) : IsStore s.outline := by
  refine ⟨_, rfl, ?_⟩
  intro m hm
  obtain ⟨id, r, _, rfl⟩ := mem_outline_iff.mp hm
  refine ⟨⟨id, denotesId_idText id⟩, _, rfl, ?_⟩
  intro f hf
  obtain ⟨e, _, rfl⟩ := List.mem_map.mp hf
  exact e.2.isScalar_toJson

/-- In the document of a store the digits of an id are the greatest key for it, since they are the only one. -/
theorem latest_outline (hr : s.records.get? id = some r) :
    Latest (Table.ofList s.written).entries id (idText id) r.outline := by
  refine ⟨mem_outline_iff.mpr ⟨id, r, hr, rfl⟩, denotesId_idText id, ?_⟩
  intro m hm hid
  obtain ⟨id', _, _, rfl⟩ := mem_outline_iff.mp hm
  obtain rfl := hid.unique (denotesId_idText id')
  exact List.le_refl _

/-- Stores with the same records under the same ids are the same. -/
theorem eq_of_get? {s' : Store} (h : ∀ id, s.records.get? id = s'.records.get? id) : s = s' := by
  cases s
  cases s'
  exact congrArg Store.mk (Table.ext_get? h)

/-- The document of a store with finite records is loaded as the store. -/
theorem ofJson_storeOutline (hfinite : ∀ id r, s.records.get? id = some r → r.IsFinite) : ofJson s.outline = .ok s := by
  rcases ofJson_cases s.ordered_outline with ⟨⟨s', hread⟩, _⟩ | ⟨e, _, hrefused⟩
  · have hrecords := (reads_of_ofJson s.ordered_outline hread).records
    have hsame : s' = s := by
      refine eq_of_get? fun id => Option.ext fun r => ?_
      constructor
      · intro hr
        obtain ⟨key, fields, hlatest, hfills⟩ := (hrecords id r).mp hr
        obtain ⟨id', r', hr', hm⟩ := mem_outline_iff.mp hlatest.mem
        obtain ⟨rfl, hfields⟩ := Prod.mk.inj hm
        cases hfields
        rw [hlatest.denotes.unique (denotesId_idText id'), hr', hfills.unique (fills_outline (hfinite id' r' hr'))]
      · intro hr
        exact (hrecords id r).mpr ⟨_, _, latest_outline hr, fills_outline (hfinite id r hr)⟩
    rw [hread, hsame]
  · exact absurd s.isStore_outline hrefused.not_isStore

/-- Under each id of a document that is loaded, whoever asks for all fields is given a record, which is written as what stands under
the greatest key for the id exactly if the numbers in it are kept. The other way round, the document of a store with finite records
is loaded as the store. -/
theorem given_back :
    (∀ document s, document.Ordered → ofJson document = .ok s →
      ∃ members, document = .object members ∧ ∀ m ∈ members, ∀ id, DenotesId m.1 id →
        ∃ key fields, Latest members id key (.object fields) ∧
          ∀ names, (∀ name, name ∈ names ↔ name ∈ fields.map Prod.fst) →
            ∃ r, s.get id names = .ok r ∧
              (r.outline = .object fields ↔ ∀ name n, (name, .number n) ∈ fields → n.IsKept)) ∧
      ∀ s : Store, (∀ id r, s.records.get? id = some r → r.IsFinite) → ofJson s.outline = .ok s := by
  constructor
  · intro document s hord h
    obtain ⟨members, rfl⟩ := exists_object_of_ofJson h
    refine ⟨members, rfl, ?_⟩
    intro m hm id hid
    obtain ⟨id', key, fields, _, hid', hlatest, _, _⟩ := exists_latest_of_mem hord h hm
    rw [hid'.unique hid] at hlatest
    refine ⟨key, fields, hlatest, ?_⟩
    intro names hnames
    obtain ⟨r, hget, hrecord⟩ := exists_get_of_latest hord h hlatest hnames
    exact ⟨r, hget, hrecord.outline_eq_object_iff⟩
  · intro s hfinite
    exact ofJson_storeOutline hfinite

/-- A record with a negative integer and a floating-point number. -/
def weighed : Record := .ofList [("n", .integer (-5)), ("x", .float 1.5)]

theorem isFinite_weighed : weighed.IsFinite := by
  intro e he
  have hmem := Table.mem_of_mem_ofList he
  simp only [List.mem_cons, List.not_mem_nil, or_false] at hmem
  rcases hmem with rfl | rfl
  · exact nofun
  · rintro x ⟨⟩
    decide

/-- A document in which two keys denote one id, the greater one with the fields of `weighed`. -/
def twoKeys : Json :=
  .object [("01", .object [("a", .null)]), ("1", .object [("n", .number (.integer (-5))), ("x", .number (.float 1.5))])]

/-- All fields under the greater key are given back, and the store of the document is loaded from its own document. -/
theorem given_back_twoKeys :
    ∃ s r, ofJson twoKeys = .ok s ∧ s.get 1 ["x", "n"] = .ok r ∧
      r.outline = .object [("n", .number (.integer (-5))), ("x", .number (.float 1.5))] ∧ ofJson s.outline = .ok s := by
  have hord : twoKeys.Ordered := by
    refine .object (List.pairwise_pair.mpr rfl) (List.forall_mem_cons.mpr ⟨?_, List.forall_mem_singleton.mpr ?_⟩)
    · exact Record.ordered_outline (.ofList [("a", .null)])
    · exact weighed.ordered_outline
  have hread : ofJson twoKeys = .ok (empty.insert 1 weighed) := rfl
  obtain ⟨members, hmembers, hgiven⟩ := given_back.1 twoKeys _ hord hread
  cases hmembers
  obtain ⟨key, fields, hlatest, hget⟩ := hgiven _ List.mem_cons_self 1 (keyId?_eq_some_iff.mp rfl)
  have hmem := hlatest.mem
  simp only [List.mem_cons, List.not_mem_nil, or_false, Prod.mk.injEq, Json.object.injEq] at hmem
  rcases hmem with ⟨rfl, rfl⟩ | ⟨rfl, rfl⟩
  · -- the other key is greater
    have hle := hlatest.greatest _ (List.mem_cons_of_mem _ List.mem_cons_self) (keyId?_eq_some_iff.mp rfl)
    exact absurd hle (by decide)
  · obtain ⟨r, hr, hiff⟩ := hget ["x", "n"] fun name => by simp [or_comm]
    have hkept : ∀ name n, (name, Json.number n) ∈ [("n", .number (.integer (-5))), ("x", .number (.float 1.5))] → n.IsKept := by
      intro name n hn
      simp only [List.mem_cons, List.not_mem_nil, or_false, Prod.mk.injEq, Json.number.injEq] at hn
      rcases hn with ⟨_, rfl⟩ | ⟨_, rfl⟩
      · exact .integer (by decide)
      · exact .float (by decide)
    refine ⟨_, r, hread, hr, hiff.mpr hkept, given_back.2 _ fun id r hid => ?_⟩
    rw [insert, Table.get?_insert] at hid
    split at hid
    · cases hid
      exact isFinite_weighed
    · cases hid

end Store

end RecordQuery
