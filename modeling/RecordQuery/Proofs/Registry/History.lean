import RecordQuery.Proofs.Keyed
import RecordQuery.Registry.Basic

/-!
# Runs of operations

A registry that is empty at first serves one operation after the other. What it is then is told by the operations alone
(`Keeps`): the first backend put under a name stays there, the last limits hold, and what only asks or is refused leaves no
trace. So each operation is replied to as by any registry with these backends and limits, whatever came in between.
-/

namespace RecordQuery

namespace Registry

/-- What can be done with a registry. -/
inductive Operation where
  | register (name : String) (b : Backend)
  | limitBytes (limit : Nat)
  | limitDepth (limit : Nat)
  | isRegistered (name : String)
  | execute (query : String)
  | executeSource (source : ByteSource)
  | respond (source : ByteSource)

/-- What a registry says to an operation. -/
inductive Reply where
  | done
  | refused (error : QueryError)
  | registered (known : Bool)
  | answer (outcome : Except QueryError Record)
  | response (response : Response)

/-- What a registry says to an operation, and the registry that it is from then on. -/
def serve (r : Registry) : Operation → Reply × Registry
  | .register name b =>
    match r.register name b with
    | .error e => (.refused e, r)
    | .ok next => (.done, next)
  | .limitBytes limit => (.done, { r with maxBytes := limit })
  | .limitDepth limit => (.done, { r with maxDepth := limit })
  | .isRegistered name => (.registered (r.isRegistered name), r)
  | .execute query => (.answer (r.execute query), r)
  | .executeSource source => (.answer (r.executeSource source), r)
  | .respond source => (.response (r.respond source), r)

/-- The registry that has served operations. -/
def after (r : Registry) : List Operation → Registry
  | [] => r
  | op :: later => (r.serve op).2.after later

/-- What a registry says to operations, one after the other. -/
def replies (r : Registry) : List Operation → List Reply
  | [] => []
  | op :: later => (r.serve op).1 :: (r.serve op).2.replies later

/-! ## What operations leave behind -/

namespace Operation

/-- The backend that is to be put under a name. -/
def backend? (name : String) : Operation → Option Backend
  | register other b => if other = name then some b else none
  | _ => none

/-- The limit of bytes that is set. -/
def bytes? : Operation → Option Nat
  | limitBytes limit => some limit
  | _ => none

/-- The limit of nesting that is set. -/
def depth? : Operation → Option Nat
  | limitDepth limit => some limit
  | _ => none

/-- The first backend that was to be put under a name. -/
def firstBackend (history : List Operation) (name : String) : Option Backend := history.findSome? (backend? name)

/-- The limit that was set last. -/
def lastLimit (limit? : Operation → Option Nat) (unset : Nat) (history : List Operation) : Nat :=
  (history.reverse.findSome? limit?).getD unset

/-- An operation that only asks, or that is for a name that is taken. -/
def Idle (history : List Operation) : Operation → Prop
  | register name _ => ∃ b, register name b ∈ history
  | limitBytes _ | limitDepth _ => False
  | isRegistered _ | execute _ | executeSource _ | respond _ => True

variable {history : List Operation} {op : Operation} {name : String}

theorem backend?_eq_some_iff {b : Backend} : op.backend? name = some b ↔ op = register name b := by
  cases op with
  | register other b' => simp [backend?]
  | _ => simp [backend?]

/-- There is a first backend for a name exactly if one was to be put there. -/
theorem firstBackend_isSome_iff : (firstBackend history name).isSome = true ↔ ∃ b, register name b ∈ history := by
  rw [firstBackend, List.findSome?_isSome_iff]
  simp only [Option.isSome_iff_exists, backend?_eq_some_iff]
  constructor
  · rintro ⟨_, hop, b, rfl⟩
    exact ⟨b, hop⟩
  · exact fun ⟨b, hb⟩ => ⟨_, hb, b, rfl⟩

/-- A later backend for a name changes nothing about the first one. -/
theorem firstBackend_snoc (history : List Operation) (op : Operation) (name : String) :
    firstBackend (history ++ [op]) name = (firstBackend history name).or (op.backend? name) := by
  rw [firstBackend, List.findSome?_append, firstBackend, List.findSome?_cons, List.findSome?_nil]
  cases op.backend? name <;> rfl

/-- A limit that is set is the last one; an operation that sets none leaves the last one as it was. -/
theorem lastLimit_snoc (limit? : Operation → Option Nat) (unset : Nat) (history : List Operation) (op : Operation) :
    lastLimit limit? unset (history ++ [op]) = (limit? op).getD (lastLimit limit? unset history) := by
  rw [lastLimit, List.reverse_append, List.reverse_singleton, List.singleton_append, List.findSome?_cons, lastLimit]
  cases limit? op <;> rfl

end Operation

open Operation (firstBackend lastLimit)

/-- Under every name is the backend that was to be put there first. -/
def HoldsFirst (history : List Operation) (r : Registry) : Prop := ∀ name, r.stores.get? name = firstBackend history name

/-- Queries may be as deep as the last limit allows. -/
def KeepsDepth (history : List Operation) (r : Registry) : Prop := r.maxDepth = lastLimit Operation.depth? defaultDepth history

/-- Queries may be as long as the last limit allows. -/
def KeepsBytes (history : List Operation) (r : Registry) : Prop :=
  r.maxBytes = lastLimit Operation.bytes? defaultQueryBytes history

/-- The registry is what a history of operations leaves behind. -/
structure Keeps (history : List Operation) (r : Registry) : Prop where
  stores : r.HoldsFirst history
  depth : r.KeepsDepth history
  bytes : r.KeepsBytes history

variable {history before : List Operation} {r fresh : Registry} {op : Operation} {name : String}

/-! ## One operation -/

/-- A name is registered exactly if a backend was to be put under it. -/
theorem isRegistered_iff (h : r.HoldsFirst history) : r.isRegistered name = true ↔ ∃ b, .register name b ∈ history := by
  rw [isRegistered, Table.contains, h, Operation.firstBackend_isSome_iff]

/-- A name that is taken stays as it is. -/
theorem serve_register_of_taken (h : r.isRegistered name = true) (b : Backend) :
    r.serve (.register name b) = (.refused (.alreadyRegistered name), r) := by
  rw [serve, register, if_pos h]

/-- A name that is free gets the backend. -/
theorem serve_register_of_free (h : ¬ r.isRegistered name = true) (b : Backend) :
    r.serve (.register name b) = (.done, { r with stores := r.stores.insert name b }) := by
  rw [serve, register, if_neg h]

/-- The first backend stays under its name, whatever is done next. -/
theorem holdsFirst_serve (h : r.HoldsFirst history) (op : Operation) : (r.serve op).2.HoldsFirst (history ++ [op]) := by
  intro name
  rw [Operation.firstBackend_snoc, ← h]
  cases op with
  | register other b =>
    rw [Operation.backend?]
    by_cases hreg : r.isRegistered other = true
    · rw [serve_register_of_taken hreg]
      by_cases hname : other = name
      · subst hname
        obtain ⟨b', hb'⟩ := Option.isSome_iff_exists.mp hreg
        rw [hb', Option.some_or]
      · rw [if_neg hname, Option.or_none]
    · rw [serve_register_of_free hreg, Table.get?_insert]
      by_cases hname : other = name
      · subst hname
        rw [if_pos rfl, if_pos rfl, Option.not_isSome_iff_eq_none.mp hreg, Option.none_or]
      · rw [if_neg hname, if_neg (Ne.symm hname), Option.or_none]
  | _ => exact Option.or_none.symm

/-- Only limits change limits. -/
theorem limits_serve (r : Registry) (op : Operation) :
    (r.serve op).2.maxDepth = op.depth?.getD r.maxDepth ∧ (r.serve op).2.maxBytes = op.bytes?.getD r.maxBytes := by
  cases op with
  | register name b =>
    by_cases hreg : r.isRegistered name = true
    · rw [serve_register_of_taken hreg]
      exact ⟨rfl, rfl⟩
    · rw [serve_register_of_free hreg]
      exact ⟨rfl, rfl⟩
  | _ => exact ⟨rfl, rfl⟩

/-- What a history leaves behind is, after one operation more, what the longer history leaves behind. -/
theorem Keeps.serve (h : Keeps history r) (op : Operation) : Keeps (history ++ [op]) (r.serve op).2 := by
  obtain ⟨hdepth, hbytes⟩ := limits_serve r op
  refine ⟨holdsFirst_serve h.stores op, ?_, ?_⟩
  · rw [KeepsDepth, Operation.lastLimit_snoc, hdepth, h.depth]
  · rw [KeepsBytes, Operation.lastLimit_snoc, hbytes, h.bytes]

/-- An operation that only asks, and one for a name that is taken, leave the registry as it is. -/
theorem serve_of_idle (h : r.HoldsFirst history) (hop : op.Idle history) : (r.serve op).2 = r := by
  cases op with
  | register name b => rw [serve_register_of_taken ((isRegistered_iff h).mpr hop)]
  | limitBytes | limitDepth => exact hop.elim
  | _ => rfl

/-! ## A run -/

theorem keeps_empty : Keeps [] empty := ⟨fun _ => rfl, rfl, rfl⟩

/-- What a history leaves behind is, after a run of operations, what the history and the run leave behind. -/
theorem Keeps.after (h : Keeps history r) (later : List Operation) : Keeps (history ++ later) (r.after later) := by
  induction later generalizing history r with
  | nil => rwa [List.append_nil]
  | cons op later ih =>
    rw [← List.singleton_append, ← List.append_assoc]
    exact ih (h.serve op)

/-- The replies to operations one after the other are those to the first and then, from what these leave, to the others. -/
theorem replies_append (r : Registry) (before later : List Operation) :
    r.replies (before ++ later) = r.replies before ++ (r.after before).replies later := by
  induction before generalizing r with
  | nil => rfl
  | cons op before ih =>
    rw [List.cons_append, replies, ih, replies, List.cons_append]
    rfl

/-! ## Replies -/

/-- The reply to an operation, told by the operations before it: a query is answered as by any registry with the first backends
and the last limits. -/
def Recalled (history : List Operation) (reply : Reply) : Operation → Prop
  | .register name _ =>
    ((∀ b, .register name b ∉ history) → reply = .done) ∧
      ∀ b, .register name b ∈ history → reply = .refused (.alreadyRegistered name)
  | .limitBytes _ | .limitDepth _ => reply = .done
  | .isRegistered name => ∃ known, reply = .registered known ∧ (known = true ↔ ∃ b, .register name b ∈ history)
  | .execute query =>
    ∀ fresh : Registry, fresh.HoldsFirst history → fresh.KeepsDepth history → reply = .answer (fresh.execute query)
  | .executeSource source => ∀ fresh, Keeps history fresh → reply = .answer (fresh.executeSource source)
  | .respond source => ∀ fresh, Keeps history fresh → reply = .response (fresh.respond source)

/-- A history leaves one registry behind. -/
theorem Keeps.eq (h : Keeps history r) (hf : Keeps history fresh) : r = fresh := by
  obtain ⟨stores, bytes, depth⟩ := r
  obtain ⟨stores', bytes', depth'⟩ := fresh
  obtain rfl : stores = stores' := Table.ext_get? fun name => (h.stores name).trans (hf.stores name).symm
  obtain rfl : bytes = bytes' := h.bytes.trans hf.bytes.symm
  obtain rfl : depth = depth' := h.depth.trans hf.depth.symm
  rfl

/-- The answer to a query has nothing to do with the limit of bytes. -/
theorem Keeps.execute_eq (h : Keeps history r) (hs : fresh.HoldsFirst history) (hd : fresh.KeepsDepth history)
    (query : String) : r.execute query = fresh.execute query := by
  have hfresh : Keeps history { fresh with maxBytes := r.maxBytes } := ⟨hs, hd, h.bytes⟩
  rw [h.eq hfresh]
  rfl

/-- The reply to an operation is told by the history before. -/
theorem Keeps.recalled (h : Keeps history r) (op : Operation) : Recalled history (r.serve op).1 op := by
  cases op with
  | register name b =>
    constructor
    · intro hfree
      have hreg : ¬ r.isRegistered name = true := fun hreg => by
        obtain ⟨b', hb'⟩ := (isRegistered_iff h.stores).mp hreg
        exact hfree b' hb'
      rw [serve_register_of_free hreg]
    · intro b' hb'
      rw [serve_register_of_taken ((isRegistered_iff h.stores).mpr ⟨b', hb'⟩)]
  | limitBytes | limitDepth => rfl
  | isRegistered name => exact ⟨_, rfl, isRegistered_iff h.stores⟩
  | execute query =>
    intro fresh hs hd
    exact congrArg Reply.answer (h.execute_eq hs hd query)
  | executeSource source | respond source =>
    intro fresh hfresh
    rw [h.eq hfresh]
    rfl

/-- An operation of a run with the empty registry, the reply to it, and the replies to the operations behind it. -/
structure Served (before : List Operation) (op : Operation) (later : List Operation) (reply : Reply) (rest : List Reply) :
    Prop where
  replies : empty.replies (before ++ op :: later) = empty.replies before ++ reply :: rest
  /-- The reply is told by the operations before. -/
  recalled : Recalled before reply op
  /-- There is a registry with the first backends and the last limits. -/
  fresh : ∃ fresh, Keeps before fresh
  /-- Without an operation that only asks or that is refused, all other replies are the same. -/
  unseen : op.Idle before → empty.replies (before ++ later) = empty.replies before ++ rest

/-- Whatever is done with a registry, and in whichever order, each reply is told by the operations before it, and those that
only ask or are refused have no say in any other reply. -/
theorem exists_served (before : List Operation) (op : Operation) (later : List Operation) :
    ∃ reply rest, Served before op later reply rest := by
  have hkeeps : Keeps before (empty.after before) := keeps_empty.after before
  refine ⟨_, ((empty.after before).serve op).2.replies later, replies_append empty before (op :: later), hkeeps.recalled op,
    ⟨_, hkeeps⟩, fun hidle => ?_⟩
  rw [replies_append, serve_of_idle hkeeps.stores hidle]

end Registry

end RecordQuery
