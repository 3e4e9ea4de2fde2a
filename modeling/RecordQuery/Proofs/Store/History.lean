import RecordQuery.Proofs.Record.Projection
import RecordQuery.Proofs.Store.Document

/-!
# Stores over a run of operations

A store of a document, or the empty one, serves one operation after the other. Under each id it keeps the record that was put there
last, or else that of the document (`Store.Kept`), and this record alone tells what a request for fields is answered with
(`Store.Answer`). So each reply is told by the document and the operations before it (`Store.Told`), and an operation that only
asks has no say in any other reply.
-/

namespace RecordQuery.Store

/-- What can be done with a store. -/
inductive Operation where
  | insert (id : Int64) (r : Record)
  | get (id : Int64) (fields : List String)
  | size
  | isEmpty

/-- What a store says to an operation. -/
inductive Reply where
  | done
  | answer (outcome : Except StoreError Record)
  | size (n : Nat)
  | isEmpty (bare : Bool)

/-- What a store says to an operation, and the store that it is from then on. -/
def serve (s : Store) : Operation → Reply × Store
  | .insert id r => (.done, s.insert id r)
  | .get id fields => (.answer (s.get id fields), s)
  | .size => (.size s.size, s)
  | .isEmpty => (.isEmpty s.isEmpty, s)

/-- The store that has served operations. -/
def after (s : Store) : List Operation → Store
  | [] => s
  | op :: later => (s.serve op).2.after later

/-- What a store says to operations, one after the other. -/
def replies (s : Store) : List Operation → List Reply
  | [] => []
  | op :: later => (s.serve op).1 :: (s.serve op).2.replies later

/-! ## What is told -/

/-- A store at first: the empty one, as of a document without members, or the store of a document. -/
inductive Starts : List (String × Json) → Store → Prop where
  | empty : Starts [] empty
  | document {members : List (String × Json)} {s : Store} (hord : (Json.object members).Ordered)
      (h : ofJson (.object members) = .ok s) : Starts members s

/-- The id is in the document, or a record was put under it. -/
def Seen (members : List (String × Json)) (history : List Operation) (id : Int64) : Prop :=
  (∃ m ∈ members, DenotesId m.1 id) ∨ ∃ r, .insert id r ∈ history

/-- What is kept under an id: the record put there last, or else that of the document, or else nothing. -/
inductive Kept (members : List (String × Json)) (history : List Operation) (id : Int64) : Option Record → Prop where
  | inserted {earlier later : List Operation} {r : Record} (hsplit : history = earlier ++ .insert id r :: later)
      (hlast : ∀ r', .insert id r' ∉ later) : Kept members history id (some r)
  | document {key : String} {fields : List (String × Json)} {r : Record} (hno : ∀ r', .insert id r' ∉ history)
      (hlatest : Latest members id key (.object fields)) (hfills : Fills fields r) : Kept members history id (some r)
  | nothing (h : ¬Seen members history id) : Kept members history id none

/-- What a request for fields is answered with. If the record lacks fields, the first of these in the order of the request is
named; otherwise a record of exactly the requested fields is given, however often they are requested. -/
inductive Answer (id : Int64) (fields : List String) : Option Record → Except StoreError Record → Prop where
  | notFound : Answer id fields none (.error (.notFound id))
  | missingField {r : Record} {front back : List String} {field : String} (hsplit : fields = front ++ field :: back)
      (hfront : ∀ name ∈ front, r.get? name ≠ none) (hlacks : r.get? field = none) :
      Answer id fields (some r) (.error (.missingField field))
  | ok {r answer : Record} (hall : ∀ name ∈ fields, r.get? name ≠ none) (hkeys : ∀ name, name ∈ answer.keys ↔ name ∈ fields)
      (hvalues : ∀ name ∈ fields, answer.get? name = r.get? name) : Answer id fields (some r) (.ok answer)

/-- The reply to an operation, told by the document and the operations before. -/
inductive Told (members : List (String × Json)) (before : List Operation) : Operation → Reply → Prop where
  | insert (id : Int64) (r : Record) : Told members before (.insert id r) .done
  | get {id : Int64} {fields : List String} {kept : Option Record} {outcome : Except StoreError Record}
      (hkept : Kept members before id kept) (h : Answer id fields kept outcome) :
      Told members before (.get id fields) (.answer outcome)
  | size : Told members before .size (.size {id | Seen members before id}.ncard)
  | isEmpty {bare : Bool} (h : bare = true ↔ {id | Seen members before id}.ncard = 0) :
      Told members before .isEmpty (.isEmpty bare)

variable {members : List (String × Json)} {s : Store} {history before : List Operation} {id : Int64} {fields : List String}
  {r : Record} {kept : Option Record} {outcome : Except StoreError Record} {op : Operation}

/-! ## Requests -/

theorem get_of_none (h : s.records.get? id = none) : s.get id fields = .error (.notFound id) := by
  rw [get, h]

/-- A request for a record that is there is answered with its projection, or with the field it lacks. -/
theorem get_of_some (h : s.records.get? id = some r) : s.get id fields = (r.project fields).mapError .missingField := by
  rw [get, h]

/-- A request is answered with what is under the id. -/
theorem get_eq_iff : s.get id fields = outcome ↔ Answer id fields (s.records.get? id) outcome := by
  cases hr : s.records.get? id with
  | none =>
    rw [get_of_none hr]
    constructor
    · rintro rfl
      exact .notFound
    · rintro ⟨⟩
      rfl
  | some r =>
    rw [get_of_some hr]
    constructor
    · rintro rfl
      cases hp : r.project fields with
      | error field =>
        obtain ⟨front, back, hsplit, hfront, hlacks⟩ := Record.project_eq_error_iff_split.mp hp
        exact .missingField hsplit hfront hlacks
      | ok answer =>
        obtain ⟨hall, hkeys, hvalues⟩ := Record.project_eq_ok_iff.mp hp
        exact .ok hall hkeys hvalues
    · intro h
      cases h with
      | missingField hsplit hfront hlacks =>
        rw [Record.project_eq_error_iff_split.mpr ⟨_, _, hsplit, hfront, hlacks⟩]
        rfl
      | ok hall hkeys hvalues =>
        rw [Record.project_eq_ok_iff.mpr ⟨hall, hkeys, hvalues⟩]
        rfl

/-- A request finds no record exactly if there is none under the id. -/
theorem get_eq_notFound_iff : s.get id fields = .error (.notFound id) ↔ s.records.get? id = none := by
  rw [get_eq_iff]
  cases s.records.get? id with
  | none => exact ⟨fun _ => rfl, fun _ => .notFound⟩
  | some r => exact ⟨nofun, nofun⟩

/-- A request for a record that was just put there is answered from this record alone. -/
theorem get_insert_self : (s.insert id r).get id fields = outcome ↔ Answer id fields (some r) outcome := by
  rw [get_eq_iff, insert, Table.get?_insert, if_pos rfl]

/-- A record under one id changes no answer under another. -/
theorem get_insert_of_ne {id' : Int64} (h : id' ≠ id) : (s.insert id r).get id' fields = s.get id' fields := by
  rw [get, insert, Table.get?_insert, if_neg h, get]

/-! ## Records -/

namespace Operation

/-- The record that is put under an id. -/
def inserted? (id : Int64) : Operation → Option Record
  | insert other r => if other = id then some r else none
  | _ => none

/-- The record that was put under an id last. -/
def lastInserted (history : List Operation) (id : Int64) : Option Record := history.reverse.findSome? (inserted? id)

theorem inserted?_eq_some_iff : op.inserted? id = some r ↔ op = insert id r := by
  cases op with
  | insert other r' => simp [inserted?]
  | _ => simp [inserted?]

/-- The record that is put first stays the last one if no other is put under its id. -/
theorem lastInserted_cons (op : Operation) (history : List Operation) (id : Int64) :
    lastInserted (op :: history) id = (lastInserted history id).or (op.inserted? id) := by
  rw [lastInserted, List.reverse_cons, List.findSome?_append, List.findSome?_singleton, lastInserted]

/-- There is no last record for an id exactly if none was put under it. -/
theorem lastInserted_eq_none_iff : lastInserted history id = none ↔ ∀ r, insert id r ∉ history := by
  rw [lastInserted, List.findSome?_eq_none_iff]
  simp only [List.mem_reverse, Option.eq_none_iff_forall_ne_some, ne_eq, inserted?_eq_some_iff]
  constructor
  · exact fun h r hr => h _ hr r rfl
  · rintro h _ hop r rfl
    exact h r hop

/-- The last record for an id is one that was put there with no other behind it. -/
theorem lastInserted_eq_some_iff :
    lastInserted history id = some r ↔
      ∃ earlier later, history = earlier ++ insert id r :: later ∧ ∀ r', insert id r' ∉ later := by
  have hreverse : lastInserted history id = some r ↔
      ∃ behind front, history.reverse = behind ++ insert id r :: front ∧ ∀ op ∈ behind, op.inserted? id = none := by
    simp [lastInserted, List.findSome?_eq_some_iff, inserted?_eq_some_iff]
  rw [hreverse]
  constructor
  · rintro ⟨behind, front, hsplit, hnone⟩
    refine ⟨front.reverse, behind.reverse, ?_, fun r' hr' => ?_⟩
    · rw [← List.reverse_reverse history, hsplit]
      simp
    · have hsome := inserted?_eq_some_iff.mpr (Eq.refl (insert id r'))
      rw [hnone _ (List.mem_reverse.mp hr')] at hsome
      cases hsome
  · rintro ⟨earlier, later, rfl, hlast⟩
    refine ⟨later.reverse, earlier.reverse, by simp, fun op hop => ?_⟩
    refine Option.eq_none_iff_forall_ne_some.mpr fun r' hr' => ?_
    obtain rfl := inserted?_eq_some_iff.mp hr'
    exact hlast r' (List.mem_reverse.mp hop)

end Operation

open Operation (lastInserted)

/-- After one operation there is under an id what was put there, or else what was there. -/
theorem get?_serve (s : Store) (op : Operation) (id : Int64) :
    (s.serve op).2.records.get? id = (op.inserted? id).or (s.records.get? id) := by
  cases op with
  | insert other r =>
    rw [serve, insert, Table.get?_insert, Operation.inserted?]
    by_cases hid : other = id
    · rw [if_pos hid, if_pos hid.symm, Option.some_or]
    · rw [if_neg hid, if_neg (Ne.symm hid), Option.none_or]
  | _ => rfl

/-- After a run of operations there is under an id what was put there last, or else what was there at first. -/
theorem get?_after (s : Store) (history : List Operation) (id : Int64) :
    (s.after history).records.get? id = (lastInserted history id).or (s.records.get? id) := by
  induction history generalizing s with
  | nil => rfl
  | cons op history ih => rw [after, ih, get?_serve, Operation.lastInserted_cons, Option.or_assoc]

/-- The replies to operations one after the other are those to the first and then, from what these leave, to the others. -/
theorem replies_append (s : Store) (before later : List Operation) :
    s.replies (before ++ later) = s.replies before ++ (s.after before).replies later := by
  induction before generalizing s with
  | nil => rfl
  | cons op before ih =>
    rw [List.cons_append, replies, ih, replies, List.cons_append]
    rfl

/-- What a store is at first is told by the document. -/
theorem Starts.reads (h : Starts members s) : Reads members s := by
  cases h with
  | empty => exact reads_of_ofJson (.object (Keyed.ascending_nil _) (List.forall_mem_nil _)) rfl
  | document hord h => exact reads_of_ofJson hord h

section Run

variable (hs : Starts members s)

include hs

/-- There is a record under an id that is in the document or under which one was put. -/
theorem seen_iff : Seen members history id ↔ (s.after history).records.get? id ≠ none := by
  have hids := hs.reads.ids id
  rw [Table.mem_keys_iff] at hids
  rw [get?_after, Ne, Option.or_eq_none_iff, not_and_or, Operation.lastInserted_eq_none_iff, Seen, ← hids, or_comm]
  simp only [not_forall, not_not]

/-- What the store keeps is told by the document and the operations. -/
theorem kept_iff : Kept members history id kept ↔ (s.after history).records.get? id = kept := by
  constructor
  · rintro (⟨hsplit, hlast⟩ | ⟨hno, hlatest, hfills⟩ | hunseen)
    · rw [get?_after, Operation.lastInserted_eq_some_iff.mpr ⟨_, _, hsplit, hlast⟩, Option.some_or]
    · rw [get?_after, Operation.lastInserted_eq_none_iff.mpr hno, Option.none_or]
      exact (hs.reads.records id _).mpr ⟨_, _, hlatest, hfills⟩
    · exact not_not.mp fun hne => hunseen ((seen_iff hs).mpr hne)
  · rintro rfl
    cases hr : (s.after history).records.get? id with
    | none => exact .nothing fun hseen => (seen_iff hs).mp hseen hr
    | some r =>
      rw [get?_after] at hr
      cases hlast : lastInserted history id with
      | some r' =>
        rw [hlast, Option.some_or] at hr
        cases hr
        obtain ⟨_, _, hsplit, hlater⟩ := Operation.lastInserted_eq_some_iff.mp hlast
        exact .inserted hsplit hlater
      | none =>
        rw [hlast, Option.none_or] at hr
        obtain ⟨_, _, hlatest, hfills⟩ := (hs.reads.records id r).mp hr
        exact .document (Operation.lastInserted_eq_none_iff.mp hlast) hlatest hfills

/-- The size of a store is the number of ids that were seen. -/
theorem size_after (history : List Operation) : (s.after history).size = {id | Seen members history id}.ncard := by
  simp only [size, Table.size_eq_ncard, Table.mem_keys_iff, seen_iff hs]

/-- The reply to an operation is the one that is told. -/
theorem told_iff {reply : Reply} : Told members before op reply ↔ reply = ((s.after before).serve op).1 := by
  have hempty : (s.after before).isEmpty = true ↔ {id | Seen members before id}.ncard = 0 := by
    rw [← size_after hs, isEmpty, Table.isEmpty, List.isEmpty_iff_length_eq_zero, size, Table.size]
  constructor
  · rintro (_ | ⟨hkept, h⟩ | _ | hbare)
    · rfl
    · rw [← (kept_iff hs).mp hkept] at h
      rw [serve, get_eq_iff.mpr h]
    · rw [serve, size_after hs]
    · rw [serve, Bool.eq_iff_iff.mpr (hbare.trans hempty.symm)]
  · rintro rfl
    cases op with
    | insert id r => exact .insert id r
    | get id fields => exact .get ((kept_iff hs).mpr rfl) (get_eq_iff.mp rfl)
    | size =>
      rw [serve, size_after hs]
      exact .size
    | isEmpty => exact .isEmpty hempty

end Run

/-- An operation that only asks leaves the store as it is. -/
theorem serve_of_asks (h : ∀ id r, op ≠ .insert id r) : (s.serve op).2 = s := by
  cases op with
  | insert id r => exact absurd rfl (h id r)
  | _ => rfl

/-- An operation of a run, the reply to it, and the replies to the operations behind it. -/
structure Served (members : List (String × Json)) (s : Store) (before : List Operation) (op : Operation)
    (later : List Operation) (reply : Reply) (rest : List Reply) : Prop where
  replies : s.replies (before ++ op :: later) = s.replies before ++ reply :: rest
  /-- No other reply is told. -/
  told : ∀ reply', Told members before op reply' ↔ reply' = reply
  /-- Without an operation that only asks, all other replies are the same. -/
  unseen : (∀ id r, op ≠ .insert id r) → s.replies (before ++ later) = s.replies before ++ rest

/-- Whatever is done with a store, and in whichever order, each reply is told by the document and the operations before it. A
request has no answer exactly if its id was never seen, and a record that is put under an id is all there is under this id from
then on, and changes no answer under another. -/
theorem exists_told (hs : Starts members s) (before : List Operation) :
    (∀ op later, ∃ reply rest, Served members s before op later reply rest) ∧
      (∀ id fields, (s.after before).get id fields = .error (.notFound id) ↔ ¬Seen members before id) ∧
      ∀ id r fields,
        (∀ outcome, ((s.after before).insert id r).get id fields = outcome ↔ Answer id fields (some r) outcome) ∧
          ∀ id', id' ≠ id → ((s.after before).insert id r).get id' fields = (s.after before).get id' fields := by
  refine ⟨fun op later => ?_, fun id fields => ?_, fun id r fields => ?_⟩
  · refine ⟨_, ((s.after before).serve op).2.replies later, replies_append s before (op :: later), fun _ => told_iff hs,
      fun hasks => ?_⟩
    rw [replies_append, serve_of_asks hasks]
  · rw [get_eq_notFound_iff, seen_iff hs, not_not]
  · exact ⟨fun _ => get_insert_self, fun _ hid => get_insert_of_ne hid⟩

/-- A document with one record. -/
def oneRecord : List (String × Json) := [("1", .object [("name", .string "Frank")])]

/-- A record that is put in the stead of another keeps none of its fields, and the first missing field is named, which need not be
the least one. -/
theorem exists_told_replaced :
    ∃ s, Starts oneRecord s ∧ (s.after [.size]).get 2 ["name"] = .error (.notFound 2) ∧
      ((s.after [.size]).insert 1 .empty).get 1 ["name", "age"] = .error (.missingField "name") := by
  have hparse : Json.parse "\x7b\"1\":\x7b\"name\":\"Frank\"\x7d\x7d" = .ok (.object oneRecord) := rfl
  have hs : Starts oneRecord _ := .document (Json.ordered_of_parse hparse) rfl
  obtain ⟨_, hunknown, hreplaced⟩ := exists_told hs [.size]
  refine ⟨_, hs, (hunknown 2 _).mpr ?_, ((hreplaced 1 .empty _).1 _).mpr ?_⟩
  · rintro (⟨m, hm, hid⟩ | ⟨r, hr⟩)
    · cases List.mem_singleton.mp hm
      have hone : DenotesId "1" 1 := keyId?_eq_some_iff.mp rfl
      exact absurd (hid.unique hone) (by decide)
    · cases List.mem_singleton.mp hr
  · exact .missingField (List.nil_append ["name", "age"]).symm (List.forall_mem_nil _) rfl

end RecordQuery.Store
