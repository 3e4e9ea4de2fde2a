import RecordQuery.Command.Basic
import RecordQuery.Proofs.Registry.Answer
import RecordQuery.Proofs.Store.Records

/-!
# Queries answered from a data file

A data file whose document is an object with a store under every key is loaded as the registry of these stores. Otherwise what is
wrong under the least key is reported, whatever the query is. A query is answered with the scalars of the object under the
greatest key that writes the requested id (`Json.Gives`).
-/

namespace RecordQuery

/-- The document of a data file. -/
def HoldsDocument (data : FileContents) (document : Json) : Prop :=
  ∃ text, readText data = .ok text ∧ Json.parse text = .ok document

variable {members fields : List (String × Json)} {r r' : Registry} {t : Selection} {answer : Record} {document : Json}
  {data : FileContents}

namespace Json

/-- There is a member under the key. -/
def HasKey (document : Json) (name : String) : Prop := ∃ members j, document = .object members ∧ (name, j) ∈ members

/-- The document is an object with a store under every key. -/
def HoldsStores (document : Json) : Prop :=
  ∃ members, document = .object members ∧ ∀ m ∈ members, ∃ s, Store.ofJson m.2 = .ok s

/-- The least key under which there is no store, and what is wrong there. -/
structure FirstFault (members : List (String × Json)) (name : String) (e : StoreError) : Prop where
  exists_mem : ∃ j, (name, j) ∈ members ∧ Store.ofJson j = .error e
  least : ∀ m ∈ members, ∀ e', Store.ofJson m.2 = .error e' → encodeUtf8 name ≤ encodeUtf8 m.1

/-- Why a document is no object of stores. -/
inductive IsRefused : Json → CommandError → Prop where
  | notStores {document : Json} (h : ∀ members, document ≠ .object members) :
    IsRefused document (.store (.malformed .notStores))
  | store {members : List (String × Json)} {name : String} {e : StoreError} (h : FirstFault members name e) :
    IsRefused (.object members) (.store e)

/-- The answer has the fields of an object that are leaves right below the selection, each with its scalar. -/
structure Shows (fields : List (String × Json)) (t : Selection) (answer : Record) : Prop where
  all : ∀ name, t.IsPlain name → ∃ j, (name, j) ∈ fields
  keys : ∀ name, name ∈ answer.keys ↔ t.IsPlain name
  values : ∀ name j, t.IsPlain name → (name, j) ∈ fields → answer.get? name = Value.ofJson? j

/-- The answer to a selection is in the document: under the name of the selection, the greatest key that writes its id. -/
def Gives (document : Json) (t : Selection) (answer : Record) : Prop :=
  ∃ members records fields id key, document = .object members ∧ (t.name, .object records) ∈ members ∧ t.recordId = .ok id ∧
    Store.Wins records id key (.object fields) ∧ Shows fields t answer

end Json

namespace Registry

/-! ## Loading -/

/-- The stores of the members are added to a registry. -/
structure Adds (r : Registry) (members : List (String × Json)) (r' : Registry) : Prop where
  stores : ∀ m ∈ members, ∃ s, Store.ofJson m.2 = .ok s ∧ r'.stores.get? m.1 = some s.backend
  others : ∀ name, (∀ j, (name, j) ∉ members) → r'.stores.get? name = r.stores.get? name
  maxDepth : r'.maxDepth = r.maxDepth

/-- A backend is registered under a name that is free. -/
theorem register_of_free {name : String} (h : r.stores.get? name = none) (b : Backend) :
    r.register name b = .ok { r with stores := r.stores.insert name b } := by
  rw [register, isRegistered, Table.contains, h]
  rfl

/-- Members with names that are free and differ are added, or the first fault is reported. -/
theorem registerAll_cases (hasc : Keyed.Ascending Prod.fst members) (hfree : ∀ m ∈ members, r.stores.get? m.1 = none) :
    (∃ r', r.registerAll members = .ok r' ∧ Adds r members r') ∨
      ∃ name e, r.registerAll members = .error (.store e) ∧ Json.FirstFault members name e := by
  induction members generalizing r with
  | nil => exact .inl ⟨r, rfl, ⟨List.forall_mem_nil _, fun _ _ => rfl, rfl⟩⟩
  | cons m members ih =>
    obtain ⟨name, j⟩ := m
    obtain ⟨hfirst, hmembers⟩ := List.pairwise_cons.mp hasc
    obtain ⟨hname, hrest⟩ := List.forall_mem_cons.mp hfree
    unfold registerAll
    cases hj : Store.ofJson j with
    | error e =>
      refine .inr ⟨name, e, rfl, ⟨⟨j, List.mem_cons_self, hj⟩, List.forall_mem_cons.mpr ⟨fun _ _ => List.le_refl _, ?_⟩⟩⟩
      exact fun m hm _ _ => List.le_of_lt (encodeUtf8_lt_of_compare (hfirst m hm))
    | ok s =>
      -- the keys ascend, so the names of all other members are still free
      have hother {m : String × Json} (hm : m ∈ members) : m.1 ≠ name := by
        intro heq
        have hlt : compare name m.1 = .lt := hfirst m hm
        rw [heq] at hlt
        simp at hlt
      have hfree' : ∀ m ∈ members, (r.stores.insert name s.backend).get? m.1 = none := by
        intro m hm
        rw [Table.get?_insert, if_neg (hother hm)]
        exact hrest m hm
      simp only [register_of_free hname]
      rcases ih (r := { r with stores := r.stores.insert name s.backend }) hmembers hfree' with
        ⟨r', hr', hadds⟩ | ⟨name', e, he, hfault⟩
      · refine .inl ⟨r', hr', ⟨List.forall_mem_cons.mpr ⟨⟨s, hj, ?_⟩, hadds.stores⟩, fun name' hname' => ?_, hadds.maxDepth⟩⟩
        · rw [hadds.others name fun j hmem => hother hmem rfl, Table.get?_insert, if_pos rfl]
        · have hne : name' ≠ name := by
            rintro rfl
            exact hname' j List.mem_cons_self
          rw [hadds.others name' fun j hmem => hname' j (List.mem_cons_of_mem _ hmem), Table.get?_insert, if_neg hne]
      · obtain ⟨j', hmem, hj'⟩ := hfault.exists_mem
        refine .inr ⟨name', e, he, ⟨⟨j', List.mem_cons_of_mem _ hmem, hj'⟩, List.forall_mem_cons.mpr ⟨?_, hfault.least⟩⟩⟩
        intro e' he'
        rw [hj] at he'
        cases he'

/-- The document of a data file is in order, and it is loaded as the stores of its members, or it is refused. -/
theorem load_cases (h : HoldsDocument data document) :
    document.Ordered ∧
      ((∃ members r, document = .object members ∧ load data = .ok r ∧ Adds empty members r) ∨
        ∃ e, load data = .error e ∧ document.IsRefused e) := by
  obtain ⟨text, htext, hparse⟩ := h
  have hord : document.Ordered := Json.ordered_of_parse hparse
  have hload : load data = ofJson document := by
    simp only [load, htext, hparse]
  refine ⟨hord, ?_⟩
  rw [hload]
  cases hord with
  | @object members hasc _ =>
    rcases registerAll_cases (r := empty) hasc (fun m _ => Table.get?_empty m.1) with ⟨r, hr, hadds⟩ | ⟨name, e, he, hfault⟩
    · exact .inl ⟨members, r, rfl, hr, hadds⟩
    · exact .inr ⟨_, he, .store hfault⟩
  | _ => exact .inr ⟨_, rfl, .notStores nofun⟩

end Registry

namespace Json

/-- One thing is wrong under the least key at fault. -/
theorem FirstFault.unique {name name' : String} {e e' : StoreError} (hasc : Keyed.Ascending Prod.fst members)
    (h : FirstFault members name e) (h' : FirstFault members name' e') : e = e' := by
  obtain ⟨j, hmem, hj⟩ := h.exists_mem
  obtain ⟨j', hmem', hj'⟩ := h'.exists_mem
  have hname : name = name' := encodeUtf8_injective (List.le_antisymm (h.least _ hmem' e' hj') (h'.least _ hmem e hj))
  obtain ⟨_, rfl⟩ := Prod.mk.inj (Keyed.eq_of_key_eq hasc hmem hmem' hname)
  rw [hj] at hj'
  exact Except.error.inj hj'

/-- There is one thing wrong with a document. -/
theorem IsRefused.unique {e e' : CommandError} (hord : document.Ordered) (h : document.IsRefused e)
    (h' : document.IsRefused e') : e = e' := by
  cases h with
  | notStores hnot =>
    cases h' with
    | notStores => rfl
    | store => exact absurd rfl (hnot _)
  | store hfault =>
    cases h' with
    | notStores hnot => exact absurd rfl (hnot _)
    | store hfault' => rw [hfault.unique (Json.ordered_object_iff.mp hord).1 hfault']

/-- A document with a fault is no object of stores. -/
theorem IsRefused.not_holdsStores {e : CommandError} (h : document.IsRefused e) : ¬ document.HoldsStores := by
  rintro ⟨members, hobject, hall⟩
  cases h with
  | notStores hnot => exact hnot members hobject
  | store hfault =>
    cases hobject
    obtain ⟨j, hmem, hj⟩ := hfault.exists_mem
    obtain ⟨s, hs⟩ := hall _ hmem
    rw [hj] at hs
    cases hs

end Json

namespace Registry

/-- A document of which the members are added holds stores only. -/
theorem Adds.holdsStores (h : Adds r members r') : (Json.object members).HoldsStores := by
  refine ⟨members, rfl, fun m hm => ?_⟩
  obtain ⟨s, hs, _⟩ := h.stores m hm
  exact ⟨s, hs⟩

/-- The names that are registered by adding members to no stores are their keys. -/
theorem Adds.isRegistered_iff {name : String} (h : Adds empty members r) :
    r.isRegistered name = true ↔ ∃ j, (name, j) ∈ members := by
  rw [isRegistered, Table.contains, Option.isSome_iff_ne_none]
  constructor
  · intro hsome
    by_contra hnone
    exact hsome (h.others name fun j hj => hnone ⟨j, hj⟩)
  · rintro ⟨j, hj⟩
    obtain ⟨s, _, hs⟩ := h.stores _ hj
    simp [hs]

/-! ## Answers -/

/-- A store answers a selection with the fields of a record. -/
theorem resolve_eq_ok_iff {s : Store} (hs : r.stores.get? t.name = some s.backend) :
    r.resolve t = .ok answer ↔
      ∃ id record, t.recordId = .ok id ∧ s.records.get? id = some record ∧ record.project t.plainFields = .ok answer := by
  simp only [resolve, hs, Store.backend, Store.get]
  cases t.recordId with
  | error e => simp
  | ok id =>
    cases hr : s.records.get? id with
    | none => simp [Except.mapError, hr]
    | some record => cases hp : record.project t.plainFields <;> simp [Except.mapError, hr, hp]

/-- The projection of a record shows the fields of the object that it is. -/
theorem project_eq_ok_iff_shows {record : Record} (h : Store.IsRecord fields record) :
    record.project t.plainFields = .ok answer ↔ Json.Shows fields t answer := by
  rw [Record.project_eq_ok_iff]
  simp only [Selection.mem_plainFields_iff]
  constructor
  · rintro ⟨hall, hkeys, hvalues⟩
    refine ⟨fun name hname => h.get?_ne_none_iff.mp (hall name hname), hkeys, fun name j hname hj => ?_⟩
    rw [hvalues name hname, (h.get?_of_mem hj).2]
  · rintro ⟨hall, hkeys, hvalues⟩
    refine ⟨fun name hname => h.get?_ne_none_iff.mpr (hall name hname), hkeys, fun name hname => ?_⟩
    obtain ⟨j, hj⟩ := hall name hname
    rw [hvalues name j hname hj, (h.get?_of_mem hj).2]

/-- A selection is answered from the document of which the stores are loaded. -/
theorem Adds.resolve_eq_ok_iff (h : Adds empty members r) (hord : (Json.object members).Ordered) :
    r.resolve t = .ok answer ↔ (Json.object members).Gives t answer := by
  obtain ⟨hasc, hall⟩ := Json.ordered_object_iff.mp hord
  by_cases hknown : ∃ j, (t.name, j) ∈ members
  · obtain ⟨j, hj⟩ := hknown
    obtain ⟨s, hs, hstore⟩ := h.stores _ hj
    obtain ⟨records, rfl⟩ := Store.exists_object_of_ofJson hs
    rw [Registry.resolve_eq_ok_iff hstore]
    constructor
    · rintro ⟨id, record, hid, hget, hproject⟩
      obtain ⟨key, fields, hwins, hrecord⟩ := Store.exists_wins_of_get? (hall _ hj) hs hget
      exact ⟨members, records, fields, id, key, rfl, hj, hid, hwins, (project_eq_ok_iff_shows hrecord).mp hproject⟩
    · rintro ⟨_, records', fields, id, key, hobject, hj', hid, hwins, hshows⟩
      cases hobject
      cases Keyed.eq_of_key_eq hasc hj hj' rfl
      obtain ⟨_, record, hfields, hrecord, hget⟩ := hwins.exists_record (hall _ hj) hs
      cases hfields
      exact ⟨id, record, hid, hget, (project_eq_ok_iff_shows hrecord).mpr hshows⟩
  · have hnone : r.stores.get? t.name = none := by
      rw [h.others t.name (not_exists.mp hknown)]
      rfl
    constructor
    · intro hanswer
      rw [resolve, hnone] at hanswer
      cases hanswer
    · rintro ⟨_, records, _, _, _, hobject, hj, _⟩
      cases hobject
      exact absurd ⟨_, hj⟩ hknown

/-- A query is answered with what the document of the loaded file gives. -/
theorem Adds.run_eq_ok_iff (h : Adds empty members r) (hload : load data = .ok r) (hord : (Json.object members).Ordered)
    (query : String) (maxDepth : Option Nat) :
    run query data maxDepth = .ok answer ↔
      ∃ t, Selection.parse (Text.trimmed query) (maxDepth.getD defaultDepth) = .ok t ∧ (Json.object members).Gives t answer := by
  have hdepth : maxDepth.getD r.maxDepth = maxDepth.getD defaultDepth := by
    rw [h.maxDepth]
    rfl
  simp only [run, hload, execute, hdepth]
  cases hparse : Selection.parse (Text.trimmed query) (maxDepth.getD defaultDepth) with
  | error e => simp [Except.mapError]
  | ok t =>
    have hresolve : r.resolve t = .ok answer ↔ (Json.object members).Gives t answer := h.resolve_eq_ok_iff hord
    have hlimit : ({ r with maxDepth := maxDepth.getD defaultDepth } : Registry).resolve t = r.resolve t := rfl
    simp only [Except.ok.injEq, exists_eq_left', ← hresolve, hlimit]
    cases r.resolve t <;> simp [Except.mapError]

/-! ## Data files -/

/-- A data file is loaded exactly if its document is an object with a store under every key. -/
theorem exists_load_iff (h : HoldsDocument data document) : (∃ r, load data = .ok r) ↔ document.HoldsStores := by
  obtain ⟨_, ⟨members, r, rfl, hload, hadds⟩ | ⟨e, hload, hrefused⟩⟩ := load_cases h
  · exact ⟨fun _ => hadds.holdsStores, fun _ => ⟨r, hload⟩⟩
  · constructor
    · rintro ⟨r, hr⟩
      rw [hload] at hr
      cases hr
    · exact fun hs => absurd hs hrefused.not_holdsStores

/-- Loading reports just what is wrong with the document. -/
theorem load_eq_error_iff (h : HoldsDocument data document) (e : CommandError) :
    load data = .error e ↔ document.IsRefused e := by
  obtain ⟨hord, ⟨members, r, rfl, hload, hadds⟩ | ⟨e', hload, hrefused⟩⟩ := load_cases h
  · rw [hload]
    exact ⟨nofun, fun he => absurd hadds.holdsStores he.not_holdsStores⟩
  · rw [hload]
    constructor
    · rintro ⟨⟩
      exact hrefused
    · exact fun he => congrArg Except.error (hrefused.unique hord he)

/-- The names of the stores are the keys of the document. -/
theorem isRegistered_iff_of_load (h : HoldsDocument data document) (hr : load data = .ok r) (name : String) :
    r.isRegistered name = true ↔ document.HasKey name := by
  obtain ⟨_, ⟨members, r', rfl, hload, hadds⟩ | ⟨e, hload, _⟩⟩ := load_cases h
  · rw [hload] at hr
    cases hr
    rw [hadds.isRegistered_iff]
    constructor
    · exact fun ⟨j, hj⟩ => ⟨members, j, rfl, hj⟩
    · rintro ⟨_, j, hobject, hj⟩
      cases hobject
      exact ⟨j, hj⟩
  · rw [hload] at hr
    cases hr

end Registry

/-- What is wrong with the document is reported before the query is looked at. -/
theorem run_of_isRefused {e : CommandError} (h : HoldsDocument data document) (he : document.IsRefused e) (query : String)
    (maxDepth : Option Nat) : run query data maxDepth = .error e := by
  simp only [run, (Registry.load_eq_error_iff h e).mpr he]

/-- A query is answered exactly if the document holds stores and gives the answer to what is read. -/
theorem run_eq_ok_iff (h : HoldsDocument data document) (query : String) (maxDepth : Option Nat) :
    run query data maxDepth = .ok answer ↔
      document.HoldsStores ∧
        ∃ t, Selection.parse (Text.trimmed query) (maxDepth.getD defaultDepth) = .ok t ∧ document.Gives t answer := by
  obtain ⟨hord, ⟨members, r, rfl, hload, hadds⟩ | ⟨e, _, hrefused⟩⟩ := Registry.load_cases h
  · rw [hadds.run_eq_ok_iff hload hord, and_iff_right hadds.holdsStores]
  · rw [run_of_isRefused h hrefused]
    exact ⟨nofun, fun ⟨hs, _⟩ => absurd hs hrefused.not_holdsStores⟩

/-- A data file is loaded as the stores of its document, and a query is answered from the document: where it holds stores, with
the fields that the document gives, and otherwise with what is wrong with the document, whatever the query is. -/
theorem run_of_holdsDocument (h : HoldsDocument data document) :
    ((∃ r, Registry.load data = .ok r) ↔ document.HoldsStores) ∧
      (∀ e, Registry.load data = .error e ↔ document.IsRefused e) ∧
      (∀ r, Registry.load data = .ok r → ∀ name, r.isRegistered name = true ↔ document.HasKey name) ∧
      ∀ query maxDepth,
        (∀ e, document.IsRefused e → run query data maxDepth = .error e) ∧
          ∀ answer, run query data maxDepth = .ok answer ↔
            document.HoldsStores ∧ ∃ t, Selection.parse (Text.trimmed query) (maxDepth.getD defaultDepth) = .ok t ∧
              document.Gives t answer :=
  ⟨Registry.exists_load_iff h, Registry.load_eq_error_iff h, fun _ => Registry.isRegistered_iff_of_load h,
    fun query maxDepth => ⟨fun _ he => run_of_isRefused h he query maxDepth, fun _ => run_eq_ok_iff h query maxDepth⟩⟩

/-- A document in which two keys write the same id. -/
def twoSpellings : Json :=
  .object [("p", .object [("+1", .object [("a", .string "y")]), ("1", .object [("a", .string "x")])])]

/-- The text of the document, with the greater one of the keys in front. -/
def twoSpellingsText : String := "\x7b\"p\":\x7b\"1\":\x7b\"a\":\"x\"\x7d,\"+1\":\x7b\"a\":\"y\"\x7d\x7d\x7d"

/-- The store of the document has one record. -/
def onlyX : Store := ⟨Table.empty.insert 1 (Table.empty.insert "a" (.string "x"))⟩

/-- The answer is in the object under the greater one of the keys. -/
theorem run_of_holdsDocument_twoSpellings :
    HoldsDocument (.ok (encodeUtf8 twoSpellingsText)) twoSpellings ∧
      run " p(1)\x7ba\x7d\n" (.ok (encodeUtf8 twoSpellingsText)) none = .ok (Table.empty.insert "a" (.string "x")) ∧
      ∃ t, twoSpellings.Gives t (Table.empty.insert "a" (.string "x")) := by
  have htext : readText (.ok (encodeUtf8 twoSpellingsText)) = .ok twoSpellingsText := by
    rw [readText, decodeUtf8?_encodeUtf8]
  have hjson : Json.parse twoSpellingsText = .ok twoSpellings := rfl
  have hload : Registry.load (.ok (encodeUtf8 twoSpellingsText)) = .ok (.single "p" onlyX) := by
    simp only [Registry.load, htext, hjson]
    rfl
  have hparse : Selection.parse (Text.trimmed " p(1)\x7ba\x7d\n") (Registry.single "p" onlyX).maxDepth =
      .ok (.group ⟨"p", some "1", []⟩ [.leaf ⟨"a", none, []⟩]) := by
    decide +kernel
  have hanswer : (Registry.single "p" onlyX).execute (Text.trimmed " p(1)\x7ba\x7d\n") =
      .ok (Table.empty.insert "a" (.string "x")) := by
    rw [Registry.execute, hparse]
    rfl
  have hrun : run " p(1)\x7ba\x7d\n" (.ok (encodeUtf8 twoSpellingsText)) none =
      .ok (Table.empty.insert "a" (.string "x")) := by
    rw [run, hload]
    exact congrArg (Except.mapError CommandError.query) hanswer
  have hdocument : HoldsDocument (.ok (encodeUtf8 twoSpellingsText)) twoSpellings := ⟨_, htext, hjson⟩
  obtain ⟨_, _, _, htold⟩ := run_of_holdsDocument hdocument
  obtain ⟨_, t, _, hgives⟩ := ((htold _ none).2 _).mp hrun
  exact ⟨hdocument, hrun, t, hgives⟩

end RecordQuery
