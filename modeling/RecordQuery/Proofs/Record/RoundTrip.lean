import RecordQuery.Proofs.Json.RoundTrip
import RecordQuery.Proofs.Number.Denotation
import RecordQuery.Proofs.Registry.Answer
import RecordQuery.Proofs.Store.Records

/-!
# Records written and loaded back

A record that is written, in either way, and put under its id in a document is loaded back as it was (`Record.loaded_back`), if
none of its values is a floating-point number. The digits of the id are a key as they stand, and they are read as the id again.
-/

namespace RecordQuery

/-! ## Values and fields -/

/-- No value of the record is a floating-point number. -/
def Record.IsExact (r : Record) : Prop := ∀ e ∈ r.entries, ∀ x, e.2 ≠ .float x

/-- The value has a form of its own in a document: it is not a floating-point number that is none, or infinite. -/
def Value.IsFinite (v : Value) : Prop := ∀ x, v = .float x → x.isFinite = true

/-- Each value of the record has a form of its own in a document. -/
def Record.IsFinite (r : Record) : Prop := ∀ e ∈ r.entries, e.2.IsFinite

theorem Record.IsExact.isFinite {r : Record} (h : r.IsExact) : r.IsFinite := fun e he x hx => absurd hx (h e he x)

/-- A value with a form of its own in a document is told by it. -/
theorem Value.ofJson?_toJson {v : Value} (h : v.IsFinite) : Value.ofJson? v.toJson = some v := by
  cases v with
  | float x => rw [toJson, Json.ofFloat, if_pos (h x rfl), ofJson?]
  | integer n => simp only [toJson, ofJson?, if_pos (Number.fitsInt64_toInt n), Int64.ofInt_toInt]
  | _ => rfl

/-- A value that is no floating-point number has a plain form, at any depth. -/
theorem Value.plain_toJson {v : Value} (h : ∀ x, v ≠ .float x) (d : Nat) : v.toJson.Plain d := by
  cases v with
  | null => exact .null
  | boolean b => exact .bool b
  | integer n =>
    obtain ⟨hlow, hhigh⟩ := Number.fitsInt64_toInt n
    exact .integer ⟨hlow, by omega⟩
  | float x => exact absurd rfl (h x)
  | string s => exact .string s

namespace Record

variable {r : Record}

/-- A record without floating-point numbers has a plain form, one level deep. -/
theorem plain_outline (h : r.IsExact) (d : Nat) : r.outline.Plain (d + 1) := by
  refine .object ?_ ?_
  · exact List.pairwise_map.mpr r.ascending
  · intro m hm
    obtain ⟨e, he, rfl⟩ := List.mem_map.mp hm
    exact Value.plain_toJson (h e he) d

/-- All fields of a record are the record, in whatever order and how often they are asked for. -/
theorem project_of_mem_iff {names : List String} (h : ∀ name, name ∈ names ↔ name ∈ r.keys) : r.project names = .ok r :=
  project_eq_ok_iff.mpr
    ⟨fun name hname => Table.mem_keys_iff.mp ((h name).mp hname), fun name => (h name).symm, fun _ _ => rfl⟩

end Record

namespace Store

/-- Fields read from their forms are inserted one after the other. -/
theorem readFields_toJson (id : Int64) (r : Record) {entries : List (String × Value)} (h : ∀ e ∈ entries, e.2.IsFinite) :
    readFields id r (entries.map fun (name, value) => (name, value.toJson)) =
      .ok (entries.foldl (fun r e => r.insert e.1 e.2) r) := by
  induction entries generalizing r with
  | nil => rfl
  | cons e entries ih =>
    obtain ⟨name, value⟩ := e
    obtain ⟨hvalue, hentries⟩ := List.forall_mem_cons.mp h
    rw [List.map_cons, readFields]
    simp only [Value.ofJson?_toJson hvalue]
    exact ih (r.insert name value) hentries

/-- The fields of a record that is written are the record. -/
theorem readFields_outline {r : Record} (h : r.IsFinite) (id : Int64) :
    readFields id .empty (r.entries.map fun (name, value) => (name, value.toJson)) = .ok r := by
  rw [readFields_toJson id .empty h]
  exact congrArg Except.ok (Table.ofList_entries r)

/-- The digits of an id are the key that writes it. -/
theorem keyId?_idText (id : Int64) : keyId? (idText id) = some id := by
  rw [keyId?, idText, String.toList_ofList, Number.trim_writeInt, Number.readInt64_writeInt]
  rfl

/-- A record under its id is a store with this record only. -/
theorem ofJson_outline {r : Record} (h : r.IsExact) (id : Int64) :
    ofJson (.object [(idText id, r.outline)]) = .ok (empty.insert id r) := by
  rw [ofJson, readRecords]
  simp only [keyId?_idText, Record.outline, readFields_outline h.isFinite id]
  rfl

end Store

/-! ## The text of a document with one record -/

/-- The text of a document with one member, whose key is an id. -/
def underId (id : Int64) (text : String) : String := "\x7b\"" ++ idText id ++ "\": " ++ text ++ "\x7d"

/-- The digits of a number need no escapes. -/
theorem Json.flatMap_stringChar_writeInt (n : Int) : (Number.writeInt n).flatMap stringChar = Number.writeInt n := by
  have hself : ∀ c ∈ Number.writeInt n, stringChar c = [c] := by
    intro c hc
    rcases Number.mem_writeInt hc with rfl | hdigit
    · rfl
    · have hrange := Number.isSome_digit?_iff.mp hdigit
      have hne (e : Char) (he : Number.digit? e = none) : c ≠ e := by
        rintro rfl
        rw [he] at hdigit
        cases hdigit
      have hplain : escapeLetter? c = none := by
        simp only [escapeLetter?, hne '"' rfl, hne '\\' rfl, hne '\x08' rfl, hne '\x0c' rfl, hne '\n' rfl, hne '\r' rfl,
          hne '\t' rfl, if_false]
      have hprintable : ¬c.toNat < 0x20 := by omega
      simp only [stringChar, hplain, if_neg hprintable]
  rw [List.flatMap_congr hself, List.flatMap_singleton']

/-- Under an id there stands what the text inside it is written for. -/
theorem Json.written_underId {d : Nat} {j : Json} {text : String} (h : Written d text.toList (.value j)) (id : Int64) :
    Written (d + 1) (underId id text).toList (.value (.object [(idText id, j)])) := by
  have hmember : Written d _ (.members [(idText id, j)]) := .lastMember layout_space h Text.layout_nil
  have hobject := Written.object Text.layout_nil hmember
  have htext : (underId id text).toList =
      '{' :: ([] ++ (stringChars (idText id) ++ ':' :: ([' '] ++ (text.toList ++ ([] ++ ['}']))))) := by
    simp [underId, idText, stringChars, flatMap_stringChar_writeInt]
  rw [ofMembers_of_ascending (List.pairwise_singleton _ _)] at hobject
  rwa [htext]

/-- A record that is written, on one line or with a line for every field, and put under an id is loaded as a store with this
record only, and all its fields are given back. Nothing on the one line breaks it. -/
theorem Record.loaded_back {r : Record} (h : r.IsExact) (id : Int64) :
    (∀ text, text = r.compact ∨ text = r.pretty →
      ∃ document s, Json.parse (underId id text) = .ok document ∧ Store.ofJson document = .ok s ∧ s.size = 1 ∧
        ∀ names, (∀ name, name ∈ names ↔ name ∈ r.keys) → s.get id names = .ok r) ∧
      '\n' ∉ r.compact.toList ∧ '\r' ∉ r.compact.toList := by
  -- two levels stand around the values, the record and the document it is put in, and 127 are the most that are read
  have hplain := Record.plain_outline h 125
  obtain ⟨hcompact, hline⟩ := hplain.written_compact
  refine ⟨fun text htext => ?_, fun hn => ?_, fun hr => ?_⟩
  · have hwritten : Json.Written 126 text.toList (.value r.outline) := by
      rcases htext with rfl | rfl
      · exact hcompact
      · exact hplain.written_pretty
    have hparse := Json.parse_of_written (Json.written_underId hwritten id)
    rw [String.ofList_toList] at hparse
    refine ⟨_, _, hparse, Store.ofJson_outline h id, rfl, fun names hnames => ?_⟩
    have hget : (Store.empty.insert id r).records.get? id = some r := by
      rw [Store.insert, Table.get?_insert, if_pos rfl]
    rw [Store.get, hget]
    simp only [Record.project_of_mem_iff hnames]
    rfl
  · exact absurd (hline _ hn) (by decide)
  · exact absurd (hline _ hr) (by decide)

/-- A record with a name and a text that need escapes, and the least integer. -/
def escapedRecord : Record :=
  .ofList [("q\"\\\x01", .string "é\n\u2028"), ("", .null), ("n", .integer (-0x8000000000000000)), ("b", .boolean true)]

/-- The record comes back under a negative id, its fields asked for in the reverse order. -/
theorem Record.loaded_back_escaped :
    ∃ document s, Json.parse (underId (-1) escapedRecord.compact) = .ok document ∧ Store.ofJson document = .ok s ∧
      s.get (-1) escapedRecord.keys.reverse = .ok escapedRecord := by
  have hexact : escapedRecord.IsExact := by
    intro e he x
    have hmem := Table.mem_of_mem_ofList he
    simp only [List.mem_cons, List.not_mem_nil, or_false] at hmem
    rcases hmem with rfl | rfl | rfl | rfl <;> exact nofun
  obtain ⟨document, s, hparse, hs, _, hget⟩ := (Record.loaded_back hexact (-1)).1 _ (.inl rfl)
  exact ⟨document, s, hparse, hs, hget _ fun _ => List.mem_reverse⟩

end RecordQuery
