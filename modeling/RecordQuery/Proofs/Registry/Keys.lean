import RecordQuery.Proofs.Query.Accessors
import RecordQuery.Proofs.Query.Argument
import RecordQuery.Proofs.Registry.Answer
import RecordQuery.Proofs.Store.History

/-!
# Keys of a document as arguments of queries

The keys of a document and the arguments of queries denote ids in the same way. So a key that may stand between the parentheses of
a query finds a record of the document, and this is the record of the greatest key that denotes the same id (`FindsLatest`). On
the other hand an argument that finds a record denotes the id of a key.
-/

namespace RecordQuery

open Text Grammar

/-! ## Plain fields -/

namespace Grammar

/-- The entry for a plain field. -/
def plainEntry (text : String) : Selection := .leaf ⟨wordOf text.toList, none, []⟩

/-- The texts of plain fields with commas between them make up a field group. -/
theorem body_plain {texts : List String} (h : ∀ text ∈ texts, FieldName text.toList) :
    Body (",".intercalate texts).toList (texts.map plainEntry) 1 := by
  induction texts with
  | nil => exact .done
  | cons text texts ih =>
    obtain ⟨hname, hnames⟩ := List.forall_mem_cons.mp h
    cases texts with
    | nil =>
      have hbody := Body.leaf hname (.inl rfl) .done
      rw [List.append_nil] at hbody
      rwa [String.intercalate_singleton]
    | cons next texts =>
      have hbody := Body.leaf hname (.inr rfl) (.comma (ih hnames))
      rwa [String.intercalate_cons_cons, String.append_assoc, String.toList_append, String.toList_append]

end Grammar

namespace Selection

/-- Where all entries are plain, all their names are asked for. -/
theorem mem_plainFields_of_leaves {es : List Selection} (h : ∀ e ∈ es, e.isLeaf = true) (head : Head) (name : String) :
    name ∈ (group head (fieldsOf es)).plainFields ↔ ∃ e ∈ es, e.name = name := by
  rw [plainFields_group, List.mem_filter, mem_fieldNames_group, ← lastNamed_isSome_iff, and_iff_left_iff_imp]
  intro hsome
  obtain ⟨e, he⟩ := Option.isSome_iff_exists.mp hsome
  rw [he]
  exact h e (mem_of_lastNamed he).1

end Selection

namespace Registry

open Store (DenotesId Latest Fills Answer)

/-- The store of a document stands in a registry, under a name that a query can have, and a query may have a field group. -/
structure Serves (registry : Registry) (name : String) (members : List (String × Json)) (s : Store) : Prop where
  ordered : (Json.object members).Ordered
  loaded : Store.ofJson (.object members) = .ok s
  rootName : RootName name.toList
  found : registry.stores.get? name = some s.backend
  depth : 0 < registry.maxDepth

/-- The names for which the texts of plain fields stand, ascending and each of them once. -/
structure Names (texts names : List String) : Prop where
  ascending : names.Pairwise fun a b => compare a b = .lt
  mem_iff : ∀ name, name ∈ names ↔ ∃ text ∈ texts, wordOf text.toList = name

/-- Queries with this argument are answered with the record of the greatest key that denotes the same id. -/
def FindsLatest (registry : Registry) (name : String) (members : List (String × Json)) (argument : String) : Prop :=
  ∃ id key fields r, DenotesId argument id ∧ Latest members id key (.object fields) ∧ Fills fields r ∧
    ∀ texts : List String, (∀ text ∈ texts, FieldName text.toList) →
      ∃ names outcome, Names texts names ∧ Answer id names (some r) outcome ∧
        registry.execute (queryText name argument (",".intercalate texts)) = outcome.mapError .store

variable {registry r : Registry} {name argument group query : String} {members : List (String × Json)} {s : Store} {id : Int64}
  {t : Selection} {es : List Selection} {n : Nat} {record : Record}

/-- The names that are asked for by the texts of plain fields. -/
theorem names_of_parse {texts : List String} {head : Head} {limit : Nat}
    (h : Selection.parse query limit = .ok (.group head (fieldsOf (texts.map plainEntry)))) :
    Names texts (Selection.group head (fieldsOf (texts.map plainEntry))).plainFields := by
  refine ⟨Selection.pairwise_plainFields h, fun name => ?_⟩
  have hleaves : ∀ e ∈ texts.map plainEntry, e.isLeaf = true := by
    intro e he
    obtain ⟨text, _, rfl⟩ := List.mem_map.mp he
    rfl
  rw [Selection.mem_plainFields_of_leaves hleaves]
  simp [plainEntry, Selection.name, Selection.head]

/-! ## Lookups -/

/-- The store of a document that is put under a free name stands there. -/
theorem serves_register (hord : (Json.object members).Ordered) (h : Store.ofJson (.object members) = .ok s)
    (hn : RootName name.toList) (hd : 0 < r.maxDepth) (hr : r.register name s.backend = .ok registry) :
    Serves registry name members s := by
  unfold register at hr
  split at hr
  next => cases hr
  next =>
    cases hr
    exact ⟨hord, h, hn, by rw [Table.get?_insert, if_pos rfl], hd⟩

namespace Serves

variable (h : Serves registry name members s)

include h

/-- A query for an id is answered by the store. -/
theorem execute_of_parse (hp : Selection.parse query registry.maxDepth = .ok t) (hname : t.name = name)
    (hid : t.recordId = .ok id) : registry.execute query = (s.get id t.plainFields).mapError .store := by
  simp only [execute, hp, resolve, hname, h.found, hid, Store.backend]

/-- A query under an argument that denotes an id is answered with the plain fields of its group. -/
theorem execute_queryText (ha : Avoids argumentStops argument.toList) (hid : DenotesId argument id)
    (hb : Body group.toList es n) (hn : n ≤ registry.maxDepth) :
    registry.execute (queryText name argument group) =
      (s.get id (Selection.group ⟨name, argumentOf argument.toList, []⟩ (fieldsOf es)).plainFields).mapError .store :=
  h.execute_of_parse (parse_queryText h.rootName ha hb hn) rfl ((Selection.recordId_argumentOf rfl).mpr hid)

/-- A query for plain fields under an argument that denotes an id is answered with the record there. -/
theorem exists_answer (ha : Avoids argumentStops argument.toList) (hid : DenotesId argument id)
    (hrecord : s.records.get? id = some record) {texts : List String} (ht : ∀ text ∈ texts, FieldName text.toList) :
    ∃ names outcome, Names texts names ∧ Answer id names (some record) outcome ∧
      registry.execute (queryText name argument (",".intercalate texts)) = outcome.mapError .store := by
  have hbody := body_plain ht
  have hnames := names_of_parse (parse_queryText h.rootName ha hbody h.depth)
  exact ⟨_, _, hnames, hrecord ▸ Store.get_eq_iff.mp rfl, h.execute_queryText ha hid hbody h.depth⟩

/-- A query without fields under an argument that denotes the id of a record is answered with no fields. -/
theorem execute_noFields (ha : Avoids argumentStops argument.toList) (hid : DenotesId argument id)
    (hrecord : s.records.get? id = some record) : registry.execute (queryText name argument "") = .ok .empty := by
  have hbody : Body "".toList [] 1 := .done
  rw [h.execute_queryText ha hid hbody h.depth, Store.get_of_some hrecord]
  rfl

/-- A key that may stand between the parentheses of a query finds the record of the greatest key that denotes the same id. -/
theorem findsLatest {m : String × Json} (hm : m ∈ members) (ha : Avoids argumentStops m.1.toList) :
    registry.execute (queryText name m.1 "") = .ok .empty ∧ FindsLatest registry name members m.1 := by
  obtain ⟨id, key, fields, record, hid, hlatest, hfills, hrecord⟩ := Store.exists_latest_of_mem h.ordered h.loaded hm
  refine ⟨h.execute_noFields ha hid hrecord, id, key, fields, record, hid, hlatest, hfills, fun texts ht => ?_⟩
  exact h.exists_answer ha hid hrecord ht

/-- An argument that finds a record denotes the id of a key. -/
theorem exists_key (ha : ')' ∉ argument.toList)
    (hparse : ∀ e, registry.execute (queryText name argument group) ≠ .error (.parse e))
    (hargument : ∀ e, registry.execute (queryText name argument group) ≠ .error (.argument e))
    (hfound : ∀ id, registry.execute (queryText name argument group) ≠ .error (.store (.notFound id))) :
    ∃ m ∈ members, ∃ id, DenotesId m.1 id ∧ DenotesId argument id := by
  cases hp : Selection.parse (queryText name argument group) registry.maxDepth with
  | error e => exact absurd (by simp only [execute, hp]) (hparse e)
  | ok t =>
    obtain ⟨hname, hargumentOf⟩ := argument_of_parse h.rootName ha hp
    cases hid : t.recordId with
    | error e => exact absurd (by simp only [execute, hp, resolve, hname, h.found, hid]) (hargument e)
    | ok id =>
      have hdenotes : DenotesId argument id := (Selection.recordId_argumentOf hargumentOf).mp hid
      have hne : s.records.get? id ≠ none := by
        intro hnone
        refine hfound id ?_
        rw [h.execute_of_parse hp hname hid, Store.get_of_none hnone]
        rfl
      obtain ⟨m, hm, hkey⟩ := ((Store.reads_of_ofJson h.ordered h.loaded).ids id).mp (Table.mem_keys_iff.mpr hne)
      exact ⟨m, hm, id, hkey, hdenotes⟩

end Serves

/-- The keys of a document and the arguments of queries name the same ids. A key that may stand between the parentheses of a query
finds a record, which is that of the greatest key with the same id, and an argument that finds a record denotes the id of a
key. -/
theorem execute_of_key (h : Serves registry name members s) :
    (∀ m ∈ members, ')' ∉ m.1.toList → '\n' ∉ m.1.toList →
        registry.execute (queryText name m.1 "") = .ok .empty ∧ FindsLatest registry name members m.1) ∧
      ∀ argument group : String, ')' ∉ argument.toList →
        (∀ e, registry.execute (queryText name argument group) ≠ .error (.parse e)) →
        (∀ e, registry.execute (queryText name argument group) ≠ .error (.argument e)) →
        (∀ id, registry.execute (queryText name argument group) ≠ .error (.store (.notFound id))) →
        ∃ m ∈ members, ∃ id, DenotesId m.1 id ∧ DenotesId argument id := by
  refine ⟨fun m hm hparen hline => ?_, fun argument group ha hparse hargument hfound => ?_⟩
  · have ha : Avoids argumentStops m.1.toList := by
      intro c hc hs
      rcases List.mem_pair.mp hs with rfl | rfl
      · exact hparen hc
      · exact hline hc
    exact h.findsLatest hm ha
  · exact h.exists_key ha hparse hargument hfound

/-- A document in which two keys denote one id. -/
def spelledTwice : List (String × Json) := [("+01", .object []), ("1", .object [("name", .string "Frank")])]

/-- Its store: the record of the greater key. -/
def spelledStore : Store := ⟨Table.empty.insert 1 (Table.empty.insert "name" (.string "Frank"))⟩

/-- The lesser key finds a record, and so does a third spelling, which thus denotes the id of a key. -/
theorem execute_of_key_spelledTwice :
    Serves (single "p" spelledStore) "p" spelledTwice spelledStore ∧
      (single "p" spelledStore).execute (queryText "p" "+01" "") = .ok .empty ∧
      ∃ m ∈ spelledTwice, ∃ id, DenotesId m.1 id ∧ DenotesId " 1" id := by
  have hdocument : Json.parse "\x7b\"1\":\x7b\"name\":\"Frank\"\x7d,\"+01\":\x7b\x7d\x7d" = .ok (.object spelledTwice) := rfl
  have hname : RootName "p".toList := ⟨List.cons_ne_nil _ _, avoids_cons.mpr ⟨by decide, avoids_nil _⟩⟩
  have hserves : Serves (single "p" spelledStore) "p" spelledTwice spelledStore :=
    serves_register (r := empty) (Json.ordered_of_parse hdocument) rfl hname (by decide) rfl
  obtain ⟨hkeys, harguments⟩ := execute_of_key hserves
  have hparse : Selection.parse (queryText "p" " 1" "") = .ok (.group ⟨"p", some " 1", []⟩ []) := by
    decide +kernel
  have hanswer : (single "p" spelledStore).execute (queryText "p" " 1" "") = .ok .empty := by
    rw [execute, single, hparse]
    rfl
  refine ⟨hserves, (hkeys _ List.mem_cons_self (by decide) (by decide)).1, ?_⟩
  refine harguments " 1" "" (by decide) ?_ ?_ ?_ <;> simp [hanswer]

end Registry

end RecordQuery
