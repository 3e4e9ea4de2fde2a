import RecordQuery.Proofs.Query.Extension
import RecordQuery.Proofs.Text.Encoding
import RecordQuery.Registry.Basic

/-!
# Queries read from a source

A source is read as the first bytes of its chunks put together, wherever one chunk ends and the next one starts, unless it fails
before they are there; and the text that bytes encode is in front of every text whose bytes go on from there. So a query that is
cut off is either no text or a text in front of the query, and the answer to it can only be the answer to the query or the
complaint that it is no query. What stands behind the limit, a failure included, has no say (`Registry.executeSource_bounded`).
-/

namespace RecordQuery

namespace ByteSource

/-- The source fails with this text before it has given `limit` bytes. -/
def FailsWithin (s : ByteSource) (limit : Nat) (text : String) : Prop :=
  s.failure = some text ∧ s.chunks.flatten.length < limit

variable {s : ByteSource} {limit : Nat} {text : String}

/-- A failure behind fewer bytes than are wanted is what is read. -/
theorem readFrom_of_fails (done : List UInt8) {chunks : List (List UInt8)} (h : chunks.flatten.length < limit) :
    readFrom (some text) limit done chunks = .error text := by
  induction chunks generalizing limit done with
  | nil =>
    rw [List.flatten_nil, List.length_nil] at h
    rw [readFrom, if_neg (Nat.ne_of_gt h)]
  | cons chunk chunks ih =>
    rw [List.flatten_cons, List.length_append] at h
    rw [readFrom, if_neg (by omega)]
    exact ih _ (by omega)

/-- Bytes that come before any failure are read, up to the limit. -/
theorem readFrom_of_reaches (done : List UInt8) {failure : Option String} {chunks : List (List UInt8)}
    (h : failure ≠ none → limit ≤ chunks.flatten.length) :
    readFrom failure limit done chunks = .ok (done.reverse ++ chunks.flatten.take limit) := by
  induction chunks generalizing limit done with
  | nil =>
    rw [List.flatten_nil, List.take_nil, List.append_nil]
    cases failure with
    | none => rfl
    | some text => rw [readFrom, if_pos (Nat.le_zero.mp (h (Option.some_ne_none text)))]
  | cons chunk chunks ih =>
    rw [readFrom, List.flatten_cons]
    rw [List.flatten_cons, List.length_append] at h
    split
    next hle => rw [List.take_append_of_le_length hle]
    next hlt =>
      have htake : (chunk ++ chunks.flatten).take limit = chunk ++ chunks.flatten.take (limit - chunk.length) := by
        rw [List.take_append, List.take_of_length_le (Nat.le_of_not_le hlt)]
      have hrest : failure ≠ none → limit - chunk.length ≤ chunks.flatten.length := fun hf => by
        have := h hf
        omega
      rw [ih _ hrest, htake, List.reverse_append, List.reverse_reverse, List.append_assoc]

/-- A source that fails before the limit is read as its failure. -/
theorem read_of_failsWithin (h : s.FailsWithin limit text) : s.read limit = .error text := by
  rw [read, h.1]
  exact readFrom_of_fails [] h.2

/-- A source that does not fail before the limit is read as the first of its bytes. -/
theorem read_of_not_failsWithin (h : ∀ text, ¬s.FailsWithin limit text) : s.read limit = .ok (s.chunks.flatten.take limit) := by
  refine readFrom_of_reaches [] fun hf => ?_
  obtain ⟨text, htext⟩ := Option.ne_none_iff_exists'.mp hf
  exact Nat.le_of_not_lt fun hlt => h text ⟨htext, hlt⟩

/-- A source that just ends does not fail before any limit. -/
theorem not_failsWithin_of_ends (h : s.failure = none) (limit : Nat) (text : String) : ¬s.FailsWithin limit text := by
  rintro ⟨hf, _⟩
  rw [h] at hf
  cases hf

theorem FailsWithin.unique {text' : String} (h : s.FailsWithin limit text) (h' : s.FailsWithin limit text') : text = text' :=
  Option.some.inj (h.1.symm.trans h'.1)

end ByteSource

namespace Registry

/-- A text in front of a query is answered as the query, or is no query itself. -/
theorem execute_of_prefix {registry : Registry} {p r : String} {t : Selection}
    (h : Selection.parse (p ++ r) registry.maxDepth = .ok t) :
    registry.execute p = registry.execute (p ++ r) ∨ ∃ e, registry.execute p = .error (.parse e) := by
  cases hp : Selection.parse p registry.maxDepth with
  | error e =>
    refine .inr ⟨e, ?_⟩
    rw [execute, hp]
  | ok t' =>
    rcases Selection.parse_append_of_ok hp r with ⟨_, hsame⟩ | ⟨_, e, he, _⟩
    · refine .inl ?_
      rw [execute, execute, hp, hsame]
    · exact absurd h (not_ok_of_error he)

/-- Without a failure before the limit, the first bytes of a source are the query. -/
theorem executeSource_of_not_failsWithin (registry : Registry) {source : ByteSource}
    (h : ∀ text, ¬source.FailsWithin registry.maxBytes text) :
    registry.executeSource source =
      (decodeUtf8? (source.chunks.flatten.take registry.maxBytes)).elim (.error .notUtf8) registry.execute := by
  simp only [executeSource, ByteSource.read_of_not_failsWithin h]
  cases decodeUtf8? (source.chunks.flatten.take registry.maxBytes) with
  | none => rfl
  | some query => rfl

/-- The first bytes of a source that never fails are the query. -/
theorem executeSource_of_not_fails (registry : Registry) {source : ByteSource} (h : source.failure = none) :
    registry.executeSource source =
      (decodeUtf8? (source.chunks.flatten.take registry.maxBytes)).elim (.error .notUtf8) registry.execute :=
  executeSource_of_not_failsWithin registry (ByteSource.not_failsWithin_of_ends h registry.maxBytes)

/-- However few bytes of a query are read, the answer is the one to the query, or the query is at fault. -/
theorem executeSource_eq_or_rejected {registry : Registry} {query : String} {t : Selection} {source : ByteSource}
    (hq : Selection.parse query registry.maxDepth = .ok t) (hs : source.failure = none)
    (hb : source.chunks.flatten = encodeUtf8 query) :
    registry.executeSource source = registry.execute query ∨
      ∃ e : QueryError, registry.executeSource source = .error e ∧ e.status = 400 ∧ (e = .notUtf8 ∨ ∃ p, e = .parse p) := by
  rw [executeSource_of_not_fails registry hs, hb]
  cases hd : decodeUtf8? ((encodeUtf8 query).take registry.maxBytes) with
  | none => exact .inr ⟨.notUtf8, rfl, rfl, .inl rfl⟩
  | some p =>
    have hbytes : encodeUtf8 query = encodeUtf8 p ++ (encodeUtf8 query).drop registry.maxBytes := by
      rw [encodeUtf8_of_decodeUtf8? hd, List.take_append_drop]
    obtain ⟨r, rfl⟩ := exists_append_of_encodeUtf8 hbytes
    rcases execute_of_prefix hq with hsame | ⟨e, he⟩
    · exact .inl hsame
    · exact .inr ⟨.parse e, he, rfl, .inr ⟨e, rfl⟩⟩

/-- The answer to a query of which the last byte is not read. -/
theorem executeSource_eq_or_rejected_cut :
    (⟨.empty, 6, 1⟩ : Registry).executeSource ⟨[[97, 40, 41], [123, 98, 125, 10]], none⟩ =
        (⟨.empty, 6, 1⟩ : Registry).execute "a()\x7bb\x7d\n" ∨
      ∃ e : QueryError, (⟨.empty, 6, 1⟩ : Registry).executeSource ⟨[[97, 40, 41], [123, 98, 125, 10]], none⟩ = .error e ∧
        e.status = 400 ∧ (e = .notUtf8 ∨ ∃ p, e = .parse p) :=
  executeSource_eq_or_rejected (t := .group ⟨"a", none, []⟩ [.leaf ⟨"b", none, []⟩]) (by decide +kernel) rfl
    (by decide +kernel)

/-- A selection is answered by the backend of its name, unless there is none or there is no id to ask for. -/
theorem resolve_cases (r : Registry) (t : Selection) :
    (r.isRegistered t.name = false ∧ r.resolve t = .error (.unknownStore t.name)) ∨
      (r.isRegistered t.name = true ∧
        ((∃ e, r.resolve t = .error (.argument e)) ∨ (∃ e, r.resolve t = .error (.store e)) ∨
          ∃ record, r.resolve t = .ok record)) := by
  unfold resolve isRegistered Table.contains
  cases r.stores.get? t.name with
  | none => exact .inl ⟨rfl, rfl⟩
  | some b =>
    refine .inr ⟨rfl, ?_⟩
    cases t.recordId with
    | error e => exact .inl ⟨e, rfl⟩
    | ok id =>
      dsimp only
      cases b.get id t.plainFields with
      | error e => exact .inr (.inl ⟨e, rfl⟩)
      | ok record => exact .inr (.inr ⟨record, rfl⟩)

/-- The answer to a query finds no fault with a source or with bytes. -/
theorem execute_ne_source (r : Registry) (query : String) :
    (∀ text, r.execute query ≠ .error (.reading text)) ∧ r.execute query ≠ .error .notUtf8 := by
  unfold execute
  cases Selection.parse query r.maxDepth with
  | error e => exact ⟨nofun, nofun⟩
  | ok t =>
    rcases r.resolve_cases t with ⟨_, he⟩ | ⟨_, ⟨e, he⟩ | ⟨e, he⟩ | ⟨record, he⟩⟩ <;>
      simp only [he] <;> exact ⟨nofun, nofun⟩

/-- The answer to what is read of a source up to the limit. -/
structure AnswersSource (r : Registry) (source : ByteSource) (outcome : Except QueryError Record) : Prop where
  /-- A failure is reported exactly if it comes before the limit. -/
  reading : ∀ text, outcome = .error (.reading text) ↔ source.FailsWithin r.maxBytes text
  /-- Without it, the bytes up to the limit are the query, if they encode one. -/
  query : ∀ query, (∀ text, ¬source.FailsWithin r.maxBytes text) →
    encodeUtf8 query = source.chunks.flatten.take r.maxBytes → outcome = r.execute query
  /-- Otherwise there is no query. -/
  notUtf8 : outcome = .error .notUtf8 ↔ (∀ text, ¬source.FailsWithin r.maxBytes text) ∧
    ∀ query, encodeUtf8 query ≠ source.chunks.flatten.take r.maxBytes

section Bounded

variable {r : Registry} {source source' : ByteSource} {text : String}

/-- A failure that comes before the limit is reported. -/
theorem executeSource_of_failsWithin (h : source.FailsWithin r.maxBytes text) :
    r.executeSource source = .error (.reading text) := by
  rw [executeSource, ByteSource.read_of_failsWithin h]

/-- Where a failure comes before the limit, its report is the answer, and there is no query. -/
theorem answersSource_of_failsWithin (h : source.FailsWithin r.maxBytes text) :
    r.AnswersSource source (.error (.reading text)) := by
  refine ⟨fun text' => ⟨?_, fun h' => by rw [h.unique h']⟩, fun _ hnot => absurd h (hnot text), nofun, fun ⟨hnot, _⟩ => ?_⟩
  · rintro ⟨⟩
    exact h
  · exact absurd h (hnot text)

/-- Where no failure comes before the limit, the bytes up to it are the query, or no text. -/
theorem answersSource_of_not_failsWithin (h : ∀ text, ¬source.FailsWithin r.maxBytes text) :
    r.AnswersSource source (r.executeSource source) := by
  rw [executeSource_of_not_failsWithin r h]
  cases hd : decodeUtf8? (source.chunks.flatten.take r.maxBytes) with
  | none =>
    have hnot : ∀ query, encodeUtf8 query ≠ source.chunks.flatten.take r.maxBytes := by
      intro query hq
      rw [← hq, decodeUtf8?_encodeUtf8] at hd
      cases hd
    exact ⟨fun text => ⟨nofun, fun hf => absurd hf (h text)⟩, fun query _ hq => absurd hq (hnot query),
      fun _ => ⟨h, hnot⟩, fun _ => rfl⟩
  | some query =>
    have hbytes := encodeUtf8_of_decodeUtf8? hd
    obtain ⟨hreading, hnotUtf8⟩ := r.execute_ne_source query
    refine ⟨fun text => ⟨fun he => absurd he (hreading text), fun hf => absurd hf (h text)⟩, fun query' _ hq => ?_,
      fun he => absurd he hnotUtf8, fun ⟨_, hnone⟩ => absurd hbytes (hnone query)⟩
    rw [encodeUtf8_injective (hq.trans hbytes.symm)]
    rfl

/-- The answer to a source is told by its bytes up to the limit and by the failure that comes before it, if one does: where one
chunk ends and the next one starts, what stands behind the limit and a failure there have no say in it. -/
theorem executeSource_bounded (r : Registry) (source : ByteSource) :
    r.AnswersSource source (r.executeSource source) ∧
      ∀ source' : ByteSource, source'.chunks.flatten.take r.maxBytes = source.chunks.flatten.take r.maxBytes →
        (∀ text, source'.FailsWithin r.maxBytes text ↔ source.FailsWithin r.maxBytes text) →
        r.executeSource source' = r.executeSource source := by
  by_cases h : ∃ text, source.FailsWithin r.maxBytes text
  · obtain ⟨text, htext⟩ := h
    rw [executeSource_of_failsWithin htext]
    exact ⟨answersSource_of_failsWithin htext, fun _ _ hfails => executeSource_of_failsWithin ((hfails text).mpr htext)⟩
  · have hnot := not_exists.mp h
    refine ⟨answersSource_of_not_failsWithin hnot, fun source' hbytes hfails => ?_⟩
    have hnot' : ∀ text, ¬source'.FailsWithin r.maxBytes text := fun text h' => hnot text ((hfails text).mp h')
    rw [executeSource_of_not_failsWithin r hnot', executeSource_of_not_failsWithin r hnot, hbytes]

end Bounded

/-- A source that fails behind five bytes; its first character comes in two chunks. -/
def brokenSource : ByteSource := ⟨[[0xc3], [0xa9, 0x28, 0x29, 0x7b]], some "reset"⟩

/-- The failure is reported if six bytes are wanted and not if five are. The first byte is no text, and the bytes in other chunks
and with an end in place of the failure make no difference. -/
theorem executeSource_bounded_broken :
    (⟨.empty, 6, 1⟩ : Registry).executeSource brokenSource = .error (.reading "reset") ∧
      (⟨.empty, 5, 1⟩ : Registry).executeSource brokenSource = (⟨.empty, 5, 1⟩ : Registry).execute "é()\x7b" ∧
      (⟨.empty, 1, 1⟩ : Registry).executeSource brokenSource = .error .notUtf8 ∧
      (⟨.empty, 4, 1⟩ : Registry).executeSource ⟨[[0xc3, 0xa9, 0x28], [0x29, 0xff]], none⟩ =
        (⟨.empty, 4, 1⟩ : Registry).executeSource brokenSource := by
  have hreaches (limit : Nat) (h : limit ≤ 5) : ∀ text, ¬brokenSource.FailsWithin limit text :=
    fun _ hf => absurd hf.2 (Nat.not_lt_of_le h)
  refine ⟨?_, ?_, ?_, ?_⟩
  · exact ((executeSource_bounded ⟨.empty, 6, 1⟩ brokenSource).1.reading "reset").mpr ⟨rfl, by decide⟩
  · exact (executeSource_bounded ⟨.empty, 5, 1⟩ brokenSource).1.query "é()\x7b" (hreaches 5 (by decide)) (by decide +kernel)
  · refine (executeSource_bounded ⟨.empty, 1, 1⟩ brokenSource).1.notUtf8.mpr ⟨hreaches 1 (by decide), fun query hq => ?_⟩
    have hd := decodeUtf8?_encodeUtf8 query
    rw [hq] at hd
    have hnone : decodeUtf8? (brokenSource.chunks.flatten.take 1) = none := by decide +kernel
    cases hnone.symm.trans hd
  · refine (executeSource_bounded ⟨.empty, 4, 1⟩ brokenSource).2 _ rfl fun text => ?_
    exact iff_of_false (ByteSource.not_failsWithin_of_ends rfl 4 text) (hreaches 4 (by decide) text)

end Registry

end RecordQuery
