import RecordQuery.Proofs.Query.Descent
import RecordQuery.Proofs.Query.Ending

/-!
# Reading more than once

A reader goes on behind the last token that it used, so it can be asked to read again. A query has one name of a requested
record, in front of everything else; behind it every reading refuses the next token and uses up no other one. So whatever is
read, and however often, the reader is always the one in front of the tokens that are not used up (`Readings`): none is skipped,
none is used twice, none is held back, and none that is not used has a say in a reading. A reader by descent, which holds tokens
ahead while it reads, does the same and holds none between two readings.
-/

namespace RecordQuery

/-- What is wrong with a token with which no query starts. -/
def ParseError.ofStray (t : Token) : ParseError :=
  match t.kind with
  | .error fault => .scan fault t.start
  | kind => .noRoot kind

/-- The tokens of a query. -/
def Selection.tokens (query : String) : List Token := (Scanner.ofString query).tokens

/-- The tokens that the first reading of a query uses up, with this outcome, and those that are left: all are used up by a
success, by a fault of the scan and by an end of the input; otherwise the last one is the token that the error is about. Too deep
a nesting is about the brace that opens one group more than may be open. -/
def Stage.UsesUp (limit : Nat) (used rest : List Token) : Except ParseError Selection → Prop
  | .ok _ | .error (.scan _ _) | .error (.unexpectedEnd _) => rest = []
  | .error (.noRoot found) => ∃ t, used = [t] ∧ found = t.kind
  | .error (.tooDeep n) =>
    n = limit ∧ ∃ read brace stage owner outer, used = read ++ [brace] ∧ Leads limit .start read stage ∧
      Opens brace stage owner outer ∧ outer.length = limit
  | .error e => ∃ read t, used = read ++ [t] ∧ e.IsAbout t

namespace SelectionReader

/-- A reader in front of what is left of a query after a number of its tokens are taken from the scanner. -/
def ofQuery (query : String) (taken limit : Nat) : SelectionReader :=
  ofScanner ((Scanner.ofString query).advance taken) limit

/-- The reader after a number of readings. -/
def after (r : SelectionReader) : Nat → SelectionReader
  | 0 => r
  | n + 1 => (r.after n).read.2

end SelectionReader

namespace DescentReader

/-- A reader by descent that is made after a number of the tokens of a query are taken from the scanner. -/
def ofQuery (query : String) (taken limit : Nat) : DescentReader :=
  ofScanner ((Scanner.ofString query).advance taken) limit

/-- The reader after a number of readings. -/
def after (r : DescentReader) : Nat → DescentReader
  | 0 => r
  | n + 1 => (r.after n).read.2

end DescentReader

namespace Stage

variable {limit : Nat} {stage last : Stage} {t : Token} {ts read rest : List Token}

/-! ## Runs of tokens -/

/-- No token leads back to the start of a query. -/
theorem Leads.ne_start (h : Leads limit stage read last) (hs : stage ≠ .start) : last ≠ .start := by
  induction h with
  | nil => exact hs
  | @cons stage next last t ts hr _ ih =>
    have hcomes := comes_read limit stage t
    rw [hr] at hcomes
    exact ih hcomes

/-- No more groups are open than allowed. -/
theorem Leads.level_le (h : Leads limit stage read last) (hs : stage.level ≤ limit) : last.level ≤ limit := by
  induction h with
  | nil => exact hs
  | @cons stage next last t ts hr _ ih =>
    refine ih ?_
    rcases read_cases stage t with ⟨owner, outer, ho⟩ | ⟨p, hp, hread⟩
    · rw [ho.read, openGroup] at hr
      split at hr
      next hlt =>
        cases hr
        exact hlt
      next => cases hr
    · rw [← hread limit, hr] at hp
      exact hp.trans hs

/-- An error about the limit comes from a brace within as many groups as may be open. -/
theorem opens_of_tooDeep {n : Nat} (hl : last.level ≤ limit) (h : last.read limit t = .failed (.tooDeep n)) :
    n = limit ∧ ∃ owner outer, Opens t last owner outer ∧ outer.length = limit := by
  rcases read_cases last t with ⟨owner, outer, ho⟩ | ⟨p, hp, hread⟩
  · rw [ho.level] at hl
    rw [ho.read, openGroup] at h
    split at h
    next => cases h
    next hlt =>
      cases h
      exact ⟨rfl, owner, outer, ho, Nat.le_antisymm hl (Nat.le_of_not_lt hlt)⟩
  · rw [← hread limit, h] at hp
    exact absurd trivial hp

/-- The tokens with which reading ends are used up as its outcome tells. -/
theorem usesUp_of_leads {outcome : Except ParseError Selection} (h : Leads limit .start read last)
    (he : (last.read limit t).Ends outcome) (hend : t.kind.isTerminal = true → rest = []) :
    UsesUp limit (read ++ [t]) rest outcome := by
  have hcomes := comes_read limit last t
  cases hr : last.read limit t with
  | more next =>
    rw [hr] at he
    cases he
  | done selection =>
    rw [hr] at he hcomes
    cases he
    have hk : t.kind = .endOfInput := hcomes
    exact hend (by rw [hk]; rfl)
  | failed e =>
    rw [hr] at he hcomes
    cases he
    obtain ⟨habout, hnoRoot⟩ := hcomes
    cases e with
    | scan fault offset => exact hend (by rw [habout.1]; rfl)
    | unexpectedEnd expected =>
      have hk : t.kind = .endOfInput := habout
      exact hend (by rw [hk]; rfl)
    | noRoot found =>
      cases h with
      | nil => exact ⟨t, rfl, habout⟩
      | @cons _ next _ u us hu hus =>
        have hnext := comes_read limit .start u
        rw [hu] at hnext
        exact absurd (hnoRoot found rfl) (hus.ne_start hnext)
    | tooDeep n =>
      obtain ⟨hn, owner, outer, ho, hlen⟩ := opens_of_tooDeep (h.level_le (Nat.zero_le limit)) hr
      exact ⟨hn, read, t, last, owner, outer, rfl, h, ho, hlen⟩
    | unexpected | detached => exact ⟨read, t, rfl, habout⟩

/-- At the start of a reading nothing fits but the name of the requested record. -/
theorem readAll_stray (h : t.kind ≠ .objectName) :
    Stage.start.readAll limit (t :: rest) = (.error (.ofStray t), rest) := by
  have hr : Stage.start.read limit t = .failed (.ofStray t) := by
    obtain ⟨kind, text, start, stop⟩ := t
    cases kind with
    | objectName => exact absurd rfl h
    | _ => rfl
  rw [readAll, hr]

/-- Reading leaves tokens as they are. -/
theorem exists_used (limit : Nat) (stage : Stage) (ts : List Token) : ∃ used, ts = used ++ (stage.readAll limit ts).2 := by
  induction ts generalizing stage with
  | nil => exact ⟨[], rfl⟩
  | cons t ts ih =>
    rw [readAll]
    split
    next next hr =>
      obtain ⟨used, hused⟩ := ih next
      exact ⟨t :: used, by rw [List.cons_append, ← hused]⟩
    next => exact ⟨[t], rfl⟩
    next => exact ⟨[t], rfl⟩

end Stage

namespace SelectionReader

/-! ## One reading -/

variable {query : String} {limit : Nat}

theorem ofQuery_eq (query : String) (taken limit : Nat) :
    ofQuery query taken limit = ⟨(Selection.tokens query).drop taken, limit⟩ := by
  rw [ofQuery, ofScanner, Scanner.tokens_advance, Selection.tokens]

/-- The number of tokens that a reading uses up. -/
def uses (r : SelectionReader) : Nat := r.tokens.length - r.read.2.tokens.length

/-- A reader goes on behind the tokens that it used. -/
theorem read_ofQuery (query : String) (taken limit : Nat) :
    (ofQuery query taken limit).read.2 = ofQuery query (taken + (ofQuery query taken limit).uses) limit := by
  rw [ofQuery_eq, ofQuery_eq, uses, ← List.drop_drop]
  generalize (Selection.tokens query).drop taken = ts
  obtain ⟨used, hused⟩ := Stage.exists_used limit .start ts
  simp only [read]
  generalize (Stage.start.readAll limit ts).2 = rest at hused
  subst hused
  rw [List.length_append, Nat.add_sub_cancel, List.drop_left]

/-- The first reading of a query ends with one of its tokens, whatever tokens come behind that one. -/
theorem exists_usesUp (query : String) (limit : Nat) :
    ∃ used rest, Selection.tokens query = used ++ rest ∧ used ≠ [] ∧ (ofQuery query 0 limit).uses = used.length ∧
      Stage.UsesUp limit used rest (ofQuery query 0 limit).read.1 ∧
      ∀ others, read ⟨used ++ others, limit⟩ = ((ofQuery query 0 limit).read.1, ⟨others, limit⟩) := by
  have hplaced := Cursor.placed_ofChars query.toList
  obtain ⟨before, t, rest, last, outcome, htokens, hleads, hends⟩ := Cursor.exists_leads hplaced limit .start
  have hquery : Selection.tokens query = before ++ t :: rest := htokens
  have hreads (others : List Token) : read ⟨before ++ t :: others, limit⟩ = (outcome, ⟨others, limit⟩) := by
    rw [SelectionReader.read, Stage.readAll_of_leads hleads hends]
  have hread : (ofQuery query 0 limit).read = (outcome, ⟨rest, limit⟩) := by
    rw [ofQuery_eq, List.drop_zero, hquery, hreads]
  refine ⟨before ++ [t], rest, ?_, List.append_ne_nil_of_right_ne_nil before (List.cons_ne_nil t []), ?_, ?_, ?_⟩
  · rw [hquery, List.append_assoc, List.singleton_append]
  · rw [uses, hread, ofQuery_eq, List.drop_zero, hquery]
    simp only [List.length_append, List.length_cons, List.length_nil]
    omega
  · rw [hread]
    exact Stage.usesUp_of_leads hleads hends (Cursor.eq_nil_of_terminal hplaced htokens)
  · intro others
    rw [List.append_assoc, List.singleton_append, hreads, hread]

/-- A reading that is not the first one refuses the next token and uses up no other, whatever tokens come behind. -/
theorem read_stray {taken : Nat} (h : 0 < taken) {t : Token} (ht : (Selection.tokens query)[taken]? = some t) :
    (ofQuery query taken limit).read.1 = .error (.ofStray t) ∧ (ofQuery query taken limit).uses = 1 ∧
      ∀ others, read ⟨t :: others, limit⟩ = (.error (.ofStray t), ⟨others, limit⟩) := by
  obtain ⟨first, ts, hfirst, hnot⟩ := Cursor.exists_tokens_eq_cons query.toList
  have hquery : Selection.tokens query = first :: ts := hfirst
  obtain ⟨hlt, hget⟩ := List.getElem?_eq_some_iff.mp ht
  have hdrop : (Selection.tokens query).drop taken = t :: (Selection.tokens query).drop (taken + 1) := by
    rw [List.drop_eq_getElem_cons hlt, hget]
  have hk : t.kind ≠ .objectName := by
    obtain ⟨n, rfl⟩ := Nat.exists_eq_add_of_lt h
    rw [hquery, Nat.zero_add, List.getElem?_cons_succ] at ht
    exact hnot t (List.mem_of_getElem? ht)
  have hreads (others : List Token) : read ⟨t :: others, limit⟩ = (.error (.ofStray t), ⟨others, limit⟩) := by
    rw [SelectionReader.read, Stage.readAll_stray hk]
  have hread : (ofQuery query taken limit).read =
      (.error (.ofStray t), ⟨(Selection.tokens query).drop (taken + 1), limit⟩) := by
    rw [ofQuery_eq, hdrop, hreads]
  refine ⟨by rw [hread], ?_, hreads⟩
  rw [uses, hread, ofQuery_eq, hdrop]
  exact Nat.add_sub_cancel_left ..

/-- A reading with no tokens left uses up none. -/
theorem read_spent {taken : Nat} (h : (Selection.tokens query)[taken]? = none) :
    (ofQuery query taken limit).read.1 = .error (.unexpectedEnd .moreInput) ∧ (ofQuery query taken limit).uses = 0 := by
  rw [uses, SelectionReader.read, ofQuery_eq, List.drop_eq_nil_of_le (List.getElem?_eq_none_iff.mp h)]
  exact ⟨rfl, rfl⟩

end SelectionReader

/-- The readings of a reader that is made after `skipped` tokens of a query are taken from the scanner: `taken n` tokens of the
query are used up before the reading `n`, those included that were taken first. -/
structure Readings (query : String) (skipped limit : Nat) (taken : Nat → Nat) : Prop where
  start : taken 0 = skipped
  /-- The reader is the one in front of the tokens that are not used up. -/
  inFront : ∀ n, (SelectionReader.ofQuery query skipped limit).after n = .ofQuery query (taken n) limit
  /-- Tokens that a reading does not use up have no say in it. -/
  unseen : ∀ n others, taken n < taken (n + 1) →
    SelectionReader.read ⟨((Selection.tokens query).drop (taken n)).take (taken (n + 1) - taken n) ++ others, limit⟩ =
      (((SelectionReader.ofQuery query skipped limit).after n).read.1, ⟨others, limit⟩)
  /-- A reader by descent has the same outcomes; between readings it holds no token, and its scanner is in front of the tokens
  that are not used up. -/
  byDescent : ∀ n, ((DescentReader.ofQuery query skipped limit).after n).read.1 =
      ((SelectionReader.ofQuery query skipped limit).after n).read.1 ∧
    ((DescentReader.ofQuery query skipped limit).after n).ahead = none ∧
    ((DescentReader.ofQuery query skipped limit).after n).scanner.tokens = (Selection.tokens query).drop (taken n)
  /-- Only the first reading of a whole query can succeed. -/
  once : ∀ n t, ((SelectionReader.ofQuery query skipped limit).after n).read.1 = .ok t → skipped = 0 ∧ n = 0
  /-- The first reading of a whole query uses up tokens in front, as its outcome tells. -/
  first : skipped = 0 → 0 < taken 1 ∧ taken 1 ≤ (Selection.tokens query).length ∧
    Stage.UsesUp limit ((Selection.tokens query).take (taken 1)) ((Selection.tokens query).drop (taken 1))
      (SelectionReader.ofQuery query skipped limit).read.1
  /-- Every other reading uses up the next token and refuses it. -/
  stray : ∀ n t, 0 < skipped + n → (Selection.tokens query)[taken n]? = some t →
    ((SelectionReader.ofQuery query skipped limit).after n).read.1 = .error (.ofStray t) ∧ taken (n + 1) = taken n + 1
  /-- A fault is refused with its own message. -/
  message : ∀ t ∈ Selection.tokens query, ∀ fault, t.kind = .error fault → t.text = fault.message
  /-- With all tokens used up, nothing changes any more. -/
  spent : ∀ n, 0 < skipped + n → (Selection.tokens query)[taken n]? = none →
    ((SelectionReader.ofQuery query skipped limit).after n).read.1 = .error (.unexpectedEnd .moreInput) ∧
      taken (n + 1) = taken n

namespace SelectionReader

/-- The number of tokens of a query that are used up before a reading. -/
def taken (query : String) (skipped limit : Nat) : Nat → Nat
  | 0 => skipped
  | n + 1 => taken query skipped limit n + (ofQuery query (taken query skipped limit n) limit).uses

variable {query : String} {skipped limit : Nat}

/-- After a number of readings the reader is the one in front of the tokens that are not used up. -/
theorem after_ofQuery (query : String) (skipped limit n : Nat) :
    (ofQuery query skipped limit).after n = ofQuery query (taken query skipped limit n) limit := by
  induction n with
  | zero => rfl
  | succ n ih => rw [after, ih, read_ofQuery, taken]

/-- Behind the first reading of a query some of its tokens are used up. -/
theorem taken_pos {n : Nat} (h : 0 < skipped + n) : 0 < taken query skipped limit n := by
  induction n with
  | zero => exact h
  | succ n ih =>
    rw [taken]
    by_cases hn : 0 < skipped + n
    · exact Nat.add_pos_left (ih hn) _
    · obtain ⟨rfl, rfl⟩ := Nat.add_eq_zero_iff.mp (Nat.eq_zero_of_not_pos hn)
      obtain ⟨used, _, _, hne, huses, _, _⟩ := exists_usesUp query limit
      rw [taken, huses, Nat.zero_add]
      exact List.length_pos_of_ne_nil hne

/-- Readers by descent do not differ in what they use up. -/
theorem after_byDescent (query : String) (skipped limit n : Nat) :
    ((DescentReader.ofQuery query skipped limit).after n).limit = limit ∧
      ((DescentReader.ofQuery query skipped limit).after n).ahead = none ∧
      ((DescentReader.ofQuery query skipped limit).after n).scanner.tokens =
        (Selection.tokens query).drop (taken query skipped limit n) := by
  induction n with
  | zero => exact ⟨rfl, rfl, Scanner.tokens_advance _ _⟩
  | succ n ih =>
    obtain ⟨hlimit, hahead, htokens⟩ := ih
    obtain ⟨-, hlimit', hahead', htokens'⟩ := DescentReader.read_eq hahead
    refine ⟨hlimit'.trans hlimit, hahead', ?_⟩
    have huses := read_ofQuery query (taken query skipped limit n) limit
    rw [ofQuery_eq, ofQuery_eq] at huses
    rw [DescentReader.after, htokens', hlimit, htokens, taken, ofQuery_eq]
    exact congrArg SelectionReader.tokens huses

/-- Whatever is read with one reader, and however often, uses up the tokens of the query one after the other. Only the first
reading of the whole query can succeed; every other one refuses the next token. -/
theorem exists_readings (query : String) (skipped limit : Nat) : ∃ taken, Readings query skipped limit taken := by
  refine ⟨taken query skipped limit, rfl, after_ofQuery query skipped limit, ?unseen, ?byDescent, ?once, ?first, ?stray,
    ?message, ?spent⟩
  case unseen =>
    intro n others hlt
    rw [taken, Nat.add_sub_cancel_left, after_ofQuery]
    -- only the first reading of the whole query may use up more than one token
    by_cases hpos : 0 < skipped + n
    · cases hget : (Selection.tokens query)[taken query skipped limit n]? with
      | none =>
        rw [taken, (read_spent hget).2] at hlt
        exact absurd hlt (Nat.lt_irrefl _)
      | some t =>
        obtain ⟨hread, huses, hreads⟩ := read_stray (taken_pos hpos) hget
        obtain ⟨hbound, ht⟩ := List.getElem?_eq_some_iff.mp hget
        rw [huses, hread, List.drop_eq_getElem_cons hbound, ht, List.take_succ_cons, List.take_zero, List.singleton_append,
          hreads]
    · obtain ⟨rfl, rfl⟩ := Nat.add_eq_zero_iff.mp (Nat.eq_zero_of_not_pos hpos)
      obtain ⟨used, rest, htokens, _, huses, _, hreads⟩ := exists_usesUp query limit
      rw [taken, huses, List.drop_zero, htokens, List.take_left, hreads]
  case byDescent =>
    intro n
    obtain ⟨hlimit, hahead, htokens⟩ := after_byDescent query skipped limit n
    refine ⟨?_, hahead, htokens⟩
    rw [(DescentReader.read_eq hahead).1, hlimit, htokens, after_ofQuery, ofQuery_eq]
    rfl
  case once =>
    intro n t h
    rw [after_ofQuery] at h
    by_contra hnot
    have hpos : 0 < skipped + n := by omega
    cases hget : (Selection.tokens query)[taken query skipped limit n]? with
    | none =>
      rw [(read_spent hget).1] at h
      cases h
    | some u =>
      rw [(read_stray (taken_pos hpos) hget).1] at h
      cases h
  case first =>
    rintro rfl
    obtain ⟨used, rest, htokens, hne, huses, husesUp, _⟩ := exists_usesUp query limit
    have hone : taken query 0 limit 1 = used.length := by
      rw [taken, taken, huses, Nat.zero_add]
    rw [hone, htokens, List.take_left, List.drop_left, List.length_append]
    exact ⟨List.length_pos_of_ne_nil hne, Nat.le_add_right _ _, husesUp⟩
  case stray =>
    intro n t hpos hget
    obtain ⟨hread, huses, _⟩ := @read_stray query limit _ (taken_pos hpos) t hget
    rw [after_ofQuery, taken, huses]
    exact ⟨hread, rfl⟩
  case message =>
    intro t ht fault hk
    exact Cursor.text_of_mem_tokens (Cursor.placed_ofChars query.toList) ht (by rw [hk]; rfl)
  case spent =>
    intro n _ hget
    obtain ⟨hread, huses⟩ := @read_spent query limit _ hget
    rw [after_ofQuery, taken, huses]
    exact ⟨hread, rfl⟩

end SelectionReader

end RecordQuery
