import RecordQuery.Proofs.Query.Image
import RecordQuery.Proofs.Record.Projection
import RecordQuery.Proofs.Registry.Source

/-!
# The answer to a query

Which answer a registry of stores gives, told without the order in which fields are looked up: the faults in the order of their
precedence, the missing field that is named, and the fields of the record that is given (`Registry.Answers`). The fields of a
selection ascend, and the order of texts is that of their bytes, so the first field that a record lacks is the least one.
-/

namespace RecordQuery

/-! ## Selections -/

namespace Selection

/-- There is a leaf of this name right below the selection. -/
def IsPlain (t : Selection) (name : String) : Prop := ∃ field ∈ t.fields, field.isLeaf ∧ field.name = name

variable {t t' : Selection} {name : String}

/-- The names of plain fields are those of the leaves right below the selection. -/
theorem mem_plainFields_iff : name ∈ t.plainFields ↔ t.IsPlain name := by
  simp only [plainFields, IsPlain, List.mem_map, List.mem_filter, and_assoc]

/-- The names of the leaves below what is read ascend. -/
theorem pairwise_plainFields {query : String} {limit : Nat} (h : parse query limit = .ok t) :
    t.plainFields.Pairwise fun a b => compare a b = .lt := by
  obtain ⟨n, _, hq⟩ := query_of_parse h
  have hasc : Keyed.Ascending name t.fields := by
    cases hq.isQuery.1 with
    | intro _ _ ha _ => exact ha
  exact List.pairwise_map.mpr (hasc.filter _)

/-- The id that is requested is told by the argument alone. -/
theorem recordId_congr (h : t.argument = t'.argument) : t.recordId = t'.recordId := by
  rw [recordId, recordId, h]

end Selection

/-! ## Answers -/

namespace Registry

/-- All backends of the registry are stores. -/
def HoldsStores (registry : Registry) : Prop :=
  ∀ name b, registry.stores.get? name = some b → ∃ s : Store, b = s.backend

/-- The registry with one store. -/
def single (name : String) (s : Store) : Registry := { stores := Table.empty.insert name s.backend }

theorem holdsStores_single (name : String) (s : Store) : (single name s).HoldsStores := by
  intro other b h
  rw [single, Table.get?_insert] at h
  split at h
  · cases h
    exact ⟨s, rfl⟩
  · cases h

/-- The selection asks for a record that is there. -/
def Finds (registry : Registry) (t : Selection) (r : Record) : Prop :=
  ∃ (s : Store) (id : Int64), registry.stores.get? t.name = some s.backend ∧ t.recordId = .ok id ∧ s.records.get? id = some r

/-- The answer to a selection and its status. -/
inductive Resolves (registry : Registry) (t : Selection) : Except QueryError Record → Nat → Prop where
  | unknownStore (hs : registry.stores.get? t.name = none) : Resolves registry t (.error (.unknownStore t.name)) 404
  | argument {s : Store} {e : ArgumentError} (hs : registry.stores.get? t.name = some s.backend)
      (hid : t.recordId = .error e) : Resolves registry t (.error (.argument e)) 400
  | notFound {s : Store} {id : Int64} (hs : registry.stores.get? t.name = some s.backend) (hid : t.recordId = .ok id)
      (hr : s.records.get? id = none) : Resolves registry t (.error (.store (.notFound id))) 404
  | missingField {r : Record} {field : String} (hr : registry.Finds t r) (hf : t.IsPlain field)
      (hlacks : r.get? field = none)
      (hleast : ∀ name, t.IsPlain name → r.get? name = none → encodeUtf8 field ≤ encodeUtf8 name) :
      Resolves registry t (.error (.store (.missingField field))) 500
  | ok {r answer : Record} (hr : registry.Finds t r) (hall : ∀ name, t.IsPlain name → r.get? name ≠ none)
      (hkeys : ∀ name, name ∈ answer.keys ↔ t.IsPlain name)
      (hvalues : ∀ name, t.IsPlain name → answer.get? name = r.get? name) : Resolves registry t (.ok answer) 200

/-- The answer to a query and its status. -/
inductive Answers (registry : Registry) (query : String) : Except QueryError Record → Nat → Prop where
  | parse {e : ParseError} (h : Selection.parse query registry.maxDepth = .error e) :
      Answers registry query (.error (.parse e)) 400
  | resolve {t : Selection} {outcome : Except QueryError Record} {status : Nat}
      (h : Selection.parse query registry.maxDepth = .ok t) (hr : registry.Resolves t outcome status) :
      Answers registry query outcome status

/-- What is said in response: the record on one line, or the words for the error. -/
def outcomeText : Except QueryError Record → String
  | .ok record => record.compact
  | .error e => e.message

variable {registry : Registry} {query : String} {t t' : Selection} {outcome : Except QueryError Record} {status : Nat}

/-- A selection of a record that is there is answered with its projection on the plain fields, or with the field it lacks. -/
theorem resolve_of_finds {r : Record} (h : registry.Finds t r) :
    registry.resolve t = (r.project t.plainFields).mapError fun field => .store (.missingField field) := by
  obtain ⟨s, id, hs, hid, hr⟩ := h
  simp only [resolve, hs, hid, Store.backend, Store.get, hr]
  cases r.project t.plainFields <;> rfl

/-- A selection has no other answer than the one it resolves to. -/
theorem Resolves.resolve_eq (h : registry.Resolves t outcome status)
    (ht : t.plainFields.Pairwise fun a b => compare a b = .lt) : registry.resolve t = outcome := by
  cases h with
  | unknownStore hs => simp only [Registry.resolve, hs]
  | argument hs hid => simp only [Registry.resolve, hs, hid]
  | notFound hs hid hr =>
    simp only [Registry.resolve, hs, hid, Store.backend, Store.get, hr]
    rfl
  | missingField hr hf hlacks hleast =>
    have hproject := (Record.project_eq_error_iff ht).mpr
      ⟨Selection.mem_plainFields_iff.mpr hf, hlacks, fun name hname => hleast name (Selection.mem_plainFields_iff.mp hname)⟩
    rw [resolve_of_finds hr, hproject]
    rfl
  | ok hr hall hkeys hvalues =>
    simp only [← Selection.mem_plainFields_iff] at hall hkeys hvalues
    rw [resolve_of_finds hr, Record.project_eq_ok_iff.mpr ⟨hall, hkeys, hvalues⟩]
    rfl

/-- There is an answer to every selection. -/
theorem exists_resolves (hs : registry.HoldsStores) (ht : t.plainFields.Pairwise fun a b => compare a b = .lt) :
    ∃ outcome status, registry.Resolves t outcome status := by
  cases hb : registry.stores.get? t.name with
  | none => exact ⟨_, _, .unknownStore hb⟩
  | some b =>
    obtain ⟨s, rfl⟩ := hs t.name b hb
    cases hid : t.recordId with
    | error e => exact ⟨_, _, .argument hb hid⟩
    | ok id =>
      cases hr : s.records.get? id with
      | none => exact ⟨_, _, .notFound hb hid hr⟩
      | some r =>
        have hfinds : registry.Finds t r := ⟨s, id, hb, hid, hr⟩
        cases hp : r.project t.plainFields with
        | error field =>
          obtain ⟨hf, hlacks, hleast⟩ := (Record.project_eq_error_iff ht).mp hp
          simp only [Selection.mem_plainFields_iff] at hf hleast
          exact ⟨_, _, .missingField hfinds hf hlacks hleast⟩
        | ok answer =>
          obtain ⟨hall, hkeys, hvalues⟩ := Record.project_eq_ok_iff.mp hp
          simp only [Selection.mem_plainFields_iff] at hall hkeys hvalues
          exact ⟨_, _, .ok hfinds hall hkeys hvalues⟩

/-- A selection with the same name, the same argument and leaves of the same names below it has the same answer. -/
theorem Resolves.congr (hn : t.name = t'.name) (ha : t.argument = t'.argument)
    (hp : ∀ name, t.IsPlain name ↔ t'.IsPlain name) (h : registry.Resolves t outcome status) :
    registry.Resolves t' outcome status := by
  have hid : t.recordId = t'.recordId := Selection.recordId_congr ha
  have hfinds (r : Record) (hr : registry.Finds t r) : registry.Finds t' r := by
    rwa [Finds, hn, hid] at hr
  cases h with
  | unknownStore hs =>
    rw [hn] at hs ⊢
    exact .unknownStore hs
  | argument hs he => exact .argument (hn ▸ hs) (hid ▸ he)
  | notFound hs he hr => exact .notFound (hn ▸ hs) (hid ▸ he) hr
  | missingField hr hf hlacks hleast =>
    exact .missingField (hfinds _ hr) ((hp _).mp hf) hlacks fun name hname => hleast name ((hp name).mpr hname)
  | ok hr hall hkeys hvalues =>
    exact .ok (hfinds _ hr) (fun name hname => hall name ((hp name).mpr hname)) (fun name => (hkeys name).trans (hp name))
      fun name hname => hvalues name ((hp name).mpr hname)

/-- A query is executed to the answer that it has. -/
theorem Answers.execute_eq (h : registry.Answers query outcome status) : registry.execute query = outcome := by
  cases h with
  | parse h => simp only [execute, h]
  | resolve h hr =>
    simp only [execute, h]
    exact hr.resolve_eq (Selection.pairwise_plainFields h)

/-- There is an answer to every query. -/
theorem exists_answers (hs : registry.HoldsStores) (query : String) :
    ∃ outcome status, registry.Answers query outcome status := by
  cases h : Selection.parse query registry.maxDepth with
  | error e => exact ⟨_, _, .parse h⟩
  | ok t =>
    obtain ⟨outcome, status, hr⟩ := exists_resolves hs (Selection.pairwise_plainFields h)
    exact ⟨outcome, status, .resolve h hr⟩

/-- A source of the bytes of a query that are not too many is answered as the query. -/
theorem executeSource_of_encodeUtf8 {source : ByteSource} (hs : source.failure = none)
    (hb : source.chunks.flatten = encodeUtf8 query) (hlen : (encodeUtf8 query).length ≤ registry.maxBytes) :
    registry.executeSource source = registry.execute query := by
  rw [executeSource_of_not_fails registry hs, hb, List.take_of_length_le hlen, decodeUtf8?_encodeUtf8]
  rfl

/-- A request with the query is responded to with the status of the answer and its text on a line. -/
theorem Answers.respond_eq {source : ByteSource} (h : registry.Answers query outcome status)
    (hx : registry.executeSource source = outcome) : registry.respond source = ⟨status, outcomeText outcome ++ "\n"⟩ := by
  rw [respond, hx]
  cases h with
  | parse => rfl
  | resolve _ hr => cases hr <;> rfl

/-- In a registry of stores the answer to a query and its status are the ones told by the relation, and a request with the query
is responded to with them. Calls, and what is asked for below groups, have no say in it. -/
theorem execute_eq_iff (hs : registry.HoldsStores) (query : String) :
    (∀ outcome, registry.execute query = outcome ↔ ∃ status, registry.Answers query outcome status) ∧
      (∀ outcome status (source : ByteSource), registry.Answers query outcome status → source.failure = none →
        source.chunks.flatten = encodeUtf8 query → (encodeUtf8 query).length ≤ registry.maxBytes →
        registry.respond source = ⟨status, outcomeText outcome ++ "\n"⟩) ∧
      ∀ query' t t', Selection.parse query registry.maxDepth = .ok t → Selection.parse query' registry.maxDepth = .ok t' →
        t.name = t'.name → t.argument = t'.argument → (∀ name, t.IsPlain name ↔ t'.IsPlain name) →
        registry.execute query = registry.execute query' := by
  refine ⟨fun outcome => ⟨?_, fun ⟨_, h⟩ => h.execute_eq⟩, ?_, ?_⟩
  · rintro rfl
    obtain ⟨outcome, status, h⟩ := exists_answers hs query
    exact ⟨status, h.execute_eq ▸ h⟩
  · intro outcome status source h hsource hb hlen
    exact h.respond_eq ((executeSource_of_encodeUtf8 hsource hb hlen).trans h.execute_eq)
  · intro query' t t' h h' hn ha hp
    obtain ⟨outcome, status, hr⟩ := exists_resolves hs (Selection.pairwise_plainFields h)
    have hanswer : registry.Answers query outcome status := .resolve h hr
    have hanswer' : registry.Answers query' outcome status := .resolve h' (hr.congr hn ha hp)
    rw [hanswer.execute_eq, hanswer'.execute_eq]

/-- A registry with one record of one field. -/
def onePerson : Registry := single "people" ⟨Table.empty.insert 1 (Table.empty.insert "name" (.string "Frank"))⟩

/-- A query for three fields of which the record has one: the lesser one of the others is named. -/
theorem execute_eq_iff_lacking :
    onePerson.HoldsStores ∧
      onePerson.execute "people(1)\x7bzip,name,mail\x7d" = .error (.store (.missingField "mail")) ∧
      onePerson.respond ⟨[encodeUtf8 "people(1)\x7bzip,name,mail\x7d"], none⟩ =
        ⟨500, "required field not found: mail\n"⟩ := by
  have hs : onePerson.HoldsStores := holdsStores_single _ _
  have hparse : Selection.parse "people(1)\x7bzip,name,mail\x7d" =
      .ok (.group ⟨"people", some "1", []⟩ [.leaf ⟨"mail", none, []⟩, .leaf ⟨"name", none, []⟩, .leaf ⟨"zip", none, []⟩]) := by
    decide +kernel
  have hanswer : onePerson.Answers "people(1)\x7bzip,name,mail\x7d" (.error (.store (.missingField "mail"))) 500 := by
    refine .resolve hparse (.missingField ⟨_, 1, rfl, by decide +kernel, rfl⟩ ⟨_, List.mem_cons_self, rfl, rfl⟩ rfl ?_)
    rintro name ⟨field, hfield, _, rfl⟩ hlacks
    simp only [Selection.fields, List.mem_cons, List.not_mem_nil, or_false] at hfield
    rcases hfield with rfl | rfl | rfl
    · exact List.le_refl _
    · cases hlacks
    · decide +kernel
  obtain ⟨houtcome, hrespond, _⟩ := execute_eq_iff hs "people(1)\x7bzip,name,mail\x7d"
  exact ⟨hs, (houtcome _).mpr ⟨500, hanswer⟩, hrespond _ 500 ⟨[_], none⟩ hanswer rfl (List.append_nil _) (by decide +kernel)⟩

end Registry

end RecordQuery
