import RecordQuery.Proofs.Query.Image

/-!
# The field groups of a query

A field group stands somewhere in a query: in the braces of the requested record, or in those of an entry of another group
(`GroupAt`; `GroupAt.exists_nested` says that no group is left out). The text of a query tells both what it denotes and how deep
its groups are nested (`Query.unique`), so a group may be written in another way wherever it stands: with the same fields, and no
deeper, the whole query is read as before (`GroupAt.parse_congr`). The fields of a group are told by its entries name by name,
each by the last entry of the name (`find?_fieldsOf`).
-/

namespace RecordQuery

open Text Grammar

namespace Grammar

/-- What stands between a left brace and a place where an entry may start: its text, its entries, and the number of field groups
nested in each other, the one around included. A plain field in it ends at a comma. -/
inductive Front : List Char → List Selection → Nat → Prop where
  | start : Front [] [] 1
  | comma {text : List Char} {es : List Selection} {n : Nat} (h : Front text es n) : Front (',' :: text) es n
  | blanks {blanks text : List Char} {es : List Selection} {n : Nat} (hb : Blank blanks) (h : Front text es n) :
      Front (blanks ++ text) es n
  | leaf {name text : List Char} {es : List Selection} {n : Nat} (hn : FieldName name) (he : text.head? = some ',')
      (h : Front text es n) : Front (name ++ text) (.leaf ⟨wordOf name, none, []⟩ :: es) n
  | group {head inner text : List Char} {owner : Head} {is es : List Selection} {k n : Nat} (ho : FieldHead head owner)
      (hi : Body inner is k) (h : Front text es n) :
      Front (head ++ '{' :: (inner ++ '}' :: text)) (.group owner (fieldsOf is) :: es) (max (k + 1) n)

/-- An entry on the way from the requested record to a field group: its name, and the entries behind it in its own group. -/
structure Step where
  name : String
  later : List Selection

/-- Where a field group stands in a query: the text up to its left brace, that one included, the text between its braces, the text
from its right brace on, its entries, and the entries on the way to it, from the outside. -/
inductive GroupAt : List Char → List Char → List Char → List Selection → List Step → Prop where
  | root {name text body trailing : List Char} {argument : Option String} {calls : List Call} {es : List Selection} {n : Nat}
      (hn : RootName name) (hq : Qualifier text argument calls) (hb : Body body es n) (ht : Blank trailing) :
      GroupAt (name ++ (text ++ ['{'])) body ('}' :: trailing) es []
  | nested {front back before head inner after : List Char} {earlier is later : List Selection} {owner : Head}
      {path : List Step} {k m n : Nat}
      (h : GroupAt front (before ++ (head ++ '{' :: (inner ++ '}' :: after))) back
        (earlier ++ .group owner (fieldsOf is) :: later) path)
      (hb : Front before earlier m) (ho : FieldHead head owner) (hi : Body inner is k) (ha : Body after later n) :
      GroupAt (front ++ (before ++ (head ++ ['{']))) inner ('}' :: (after ++ back)) is (path ++ [⟨owner.name, later⟩])

/-- The last of the entries with a name. -/
def lastNamed (es : List Selection) (name : String) : Option Selection := (es.filter (·.name = name)).getLast?

/-! ## Fields by their names -/

section Fields

variable {e : Selection} {es es' : List Selection} {name : String}

/-- An entry behind all others is the last one of its name, and of no other name. -/
theorem lastNamed_concat (es : List Selection) (e : Selection) (name : String) :
    lastNamed (es ++ [e]) name = if e.name = name then some e else lastNamed es name := by
  unfold lastNamed
  by_cases h : e.name = name <;> simp [h]

/-- The last entry of a name is an entry and has the name. -/
theorem mem_of_lastNamed (h : lastNamed es name = some e) : e ∈ es ∧ e.name = name := by
  have hmem := List.mem_of_getLast? h
  simpa using hmem

/-- Behind the last entry with a name there is no other one. -/
theorem exists_split_of_lastNamed (h : lastNamed es name = some e) :
    ∃ earlier later, es = earlier ++ e :: later ∧ ∀ f ∈ later, f.name ≠ e.name := by
  induction es using List.reverseRecOn with
  | nil => cases h
  | append_singleton es f ih =>
    rw [lastNamed_concat] at h
    split at h
    · cases h
      exact ⟨es, [], rfl, List.forall_mem_nil _⟩
    next hf =>
      obtain ⟨earlier, later, rfl, hlater⟩ := ih h
      obtain ⟨_, rfl⟩ := mem_of_lastNamed h
      refine ⟨earlier, later ++ [f], by simp, ?_⟩
      rw [List.forall_mem_append, List.forall_mem_singleton]
      exact ⟨hlater, hf⟩

/-- There is a last entry of a name if there is one. -/
theorem lastNamed_isSome_iff : (lastNamed es name).isSome = true ↔ ∃ e ∈ es, e.name = name := by
  simp [lastNamed]

theorem fieldsOf_concat (es : List Selection) (e : Selection) :
    fieldsOf (es ++ [e]) = Keyed.insert Selection.name e (fieldsOf es) := by
  unfold fieldsOf
  simp

/-- The field with a name is the last entry of that name. -/
theorem find?_fieldsOf (es : List Selection) (name : String) :
    Keyed.find? Selection.name name (fieldsOf es) = lastNamed es name := by
  induction es using List.reverseRecOn with
  | nil => rfl
  | append_singleton es e ih =>
    rw [fieldsOf_concat, Keyed.find?_insert, lastNamed_concat, ih]
    simp only [Std.LawfulEqCmp.compare_eq_iff_eq, @eq_comm _ name]

/-- The fields of a group are the entries that are the last ones of their names. -/
theorem mem_fieldsOf_iff : e ∈ fieldsOf es ↔ lastNamed es e.name = some e := by
  rw [← find?_fieldsOf, Keyed.find?_eq_some_iff (ascending_fieldsOf es)]
  simp

/-- Entries with the same last one of each name stand for the same fields. -/
theorem fieldsOf_congr (h : ∀ name, lastNamed es name = lastNamed es' name) : fieldsOf es = fieldsOf es' := by
  refine Keyed.eq_of_mem_iff (ascending_fieldsOf es) (ascending_fieldsOf es') fun e => ?_
  rw [mem_fieldsOf_iff, mem_fieldsOf_iff, h]

end Fields

/-! ## Groups within groups -/

section Nested

variable {before rest text front back body : List Char} {earlier later es fields : List Selection} {owner : Head}
  {path : List Step} {m n : Nat}

/-- Behind the front of a field group there may be any other entries. -/
theorem Front.append (h : Front before earlier m) (hr : Body rest later n) :
    Body (before ++ rest) (earlier ++ later) (max m n) := by
  induction h with
  | start =>
    rw [Nat.max_eq_right hr.one_le]
    exact hr
  | comma _ ih => exact .comma ih
  | blanks hb _ ih =>
    rw [List.append_assoc]
    exact .blanks hb ih
  | @leaf name text es m hn he _ ih =>
    obtain ⟨text', rfl⟩ := List.head?_eq_some_iff.mp he
    rw [List.append_assoc]
    exact .leaf hn (.inr rfl) ih
  | @group head inner text owner is es k m ho hi _ ih =>
    rw [List.append_assoc, List.cons_append, List.append_assoc, List.cons_append, Nat.max_assoc]
    exact .group ho hi ih

/-- A character that is neither a mark nor a blank is the name of a field. -/
theorem fieldName_singleton {c : Char} (hc : c ∉ fieldStops) (hb : isBlank c = false) : FieldName [c] := by
  refine ⟨avoids_cons.mpr ⟨hc, avoids_nil _⟩, fun h => ?_⟩
  rw [h c List.mem_cons_self] at hb
  cases hb

/-- Parentheses with nothing between them. -/
theorem qualifier_parens : Qualifier ['(', ')'] none [] := by
  have h : Qualifier ('(' :: ([] ++ ')' :: ([] ++ []))) (argumentOf []) [] := .argument (avoids_nil _) .nil layout_nil
  exact h

/-- A head does not start with a comma. -/
theorem FieldHead.head?_ne (h : FieldHead text owner) (rest : List Char) : (text ++ rest).head? ≠ some ',' := by
  have hname {name rest : List Char} (hn : FieldName name) : (name ++ rest).head? ≠ some ',' := by
    obtain ⟨c, name, rfl⟩ := List.exists_cons_of_ne_nil (l := name) fun hnil => hn.notBlank (hnil ▸ blank_nil)
    intro hc
    cases hc
    exact hn.avoids ',' List.mem_cons_self (by decide)
  cases h with
  | bare hn => exact hname hn
  | qualified hn hq =>
    rw [List.append_assoc]
    exact hname hn

/-- Each entry that has a field group of its own stands behind a front of the group around it. -/
theorem Body.exists_front (h : Body text es n) (he : es = earlier ++ .group owner fields :: later) :
    ∃ before head inner after is m k l, text = before ++ (head ++ '{' :: (inner ++ '}' :: after)) ∧ Front before earlier m ∧
      FieldHead head owner ∧ Body inner is k ∧ fieldsOf is = fields ∧ Body after later l := by
  induction h generalizing earlier with
  | done => exact absurd he.symm (List.append_ne_nil_of_right_ne_nil earlier (List.cons_ne_nil _ _))
  | comma _ ih =>
    obtain ⟨before, head, inner, after, is, m, k, l, rfl, hf, hrest⟩ := ih he
    exact ⟨',' :: before, head, inner, after, is, m, k, l, rfl, .comma hf, hrest⟩
  | @blanks blanks text es n hb _ ih =>
    obtain ⟨before, head, inner, after, is, m, k, l, rfl, hf, hrest⟩ := ih he
    exact ⟨blanks ++ before, head, inner, after, is, m, k, l, (List.append_assoc _ _ _).symm, .blanks hb hf, hrest⟩
  | @leaf name text es n hn hend _ ih =>
    rcases earlier with _ | ⟨e, earlier⟩
    · cases he
    · obtain ⟨rfl, rfl⟩ := List.cons.inj he
      obtain ⟨before, head, inner, after, is, m, k, l, rfl, hf, hh, hrest⟩ := ih rfl
      have hcomma : before.head? = some ',' := by
        rcases before with _ | ⟨c, before⟩
        · rcases hend with hend | hend
          · exact absurd hend (by simp)
          · exact absurd hend (hh.head?_ne _)
        · simpa using hend
      exact ⟨name ++ before, head, inner, after, is, m, k, l, (List.append_assoc _ _ _).symm, .leaf hn hcomma hf, hh, hrest⟩
  | @group text inner after owner' is es k n ho hi ha _ ih =>
    rcases earlier with _ | ⟨e, earlier⟩
    · cases he
      exact ⟨[], text, inner, after, is, 1, k, n, rfl, .start, ho, hi, rfl, ha⟩
    · obtain ⟨rfl, rfl⟩ := List.cons.inj he
      obtain ⟨before, head, inner', after, is', m, k', l, rfl, hf, hrest⟩ := ih rfl
      refine ⟨text ++ '{' :: (inner ++ '}' :: before), head, inner', after, is', _, k', l, ?_, .group ho hi hf, hrest⟩
      simp only [List.append_assoc, List.cons_append]

/-- The first group of a query is the one of the requested record. -/
theorem Query.exists_groupAt {t : Selection} (h : Query text t n) :
    ∃ front body back es head, text = front ++ (body ++ back) ∧ GroupAt front body back es [] ∧
      t = .group head (fieldsOf es) := by
  obtain ⟨hn, hq, hb, ht⟩ := h
  exact ⟨_, _, _, _, _, by simp, .root hn hq hb ht, rfl⟩

/-- Between the braces of a group there are entries. -/
theorem GroupAt.exists_body (h : GroupAt front body back es path) : ∃ n, Body body es n := by
  cases h with
  | root _ _ hb _ => exact ⟨_, hb⟩
  | nested _ _ _ hi _ => exact ⟨_, hi⟩

/-- No group is left out: behind each entry that has a group of its own there is that group. -/
theorem GroupAt.exists_nested (h : GroupAt front body back (earlier ++ .group owner fields :: later) path) :
    ∃ front' inner back' is, front ++ (body ++ back) = front' ++ (inner ++ back') ∧ fieldsOf is = fields ∧
      GroupAt front' inner back' is (path ++ [⟨owner.name, later⟩]) := by
  obtain ⟨n, hbody⟩ := h.exists_body
  obtain ⟨before, head, inner, after, is, m, k, l, rfl, hf, hh, hi, rfl, ha⟩ := hbody.exists_front rfl
  refine ⟨_, inner, _, is, ?_, rfl, .nested h hf hh hi ha⟩
  simp only [List.append_assoc, List.cons_append, List.nil_append]

end Nested

end Grammar

/-! ## One denotation of a query -/

namespace Phase

variable {limit : Nat} {before rest : List Char} {t : Selection}

/-- Where the entries of a field group are read well, their groups are nested no deeper than allowed. -/
theorem le_of_body {text : List Char} {es : List Selection} {n : Nat} (hb : Body text es n) {group : OpenGroup}
    {outer : List OpenGroup} (hg : group.current = none) (hlt : outer.length < limit)
    (h : outcome limit ⟨.fields group outer, .fields, true⟩ before (text ++ '}' :: rest) = .ok t) :
    outer.length + n ≤ limit := by
  induction hb generalizing group outer before rest with
  | done => exact hlt
  | comma _ ih => exact ih hg hlt ((reads_fields_comma hg before).symm.trans h)
  | blanks hbl _ ih =>
    rw [List.append_assoc] at h
    exact ih hg hlt ((reads_blank hbl before).symm.trans h)
  | @leaf name text es n hn he _ ih =>
    have hput : (group.put (.leaf ⟨wordOf name, none, []⟩)).current = none := hg
    rw [List.append_assoc] at h
    exact ih hput hlt ((reads_entry_leaf hn he hg before).symm.trans h)
  | @group text inner texts owner is es k n ho hi _ ihi ih =>
    obtain ⟨head, _, hhead⟩ := @reads_fieldHead limit true (inner ++ '}' :: (texts ++ '}' :: rest)) text owner group outer ho
    have htext : text ++ '{' :: (inner ++ '}' :: texts) ++ '}' :: rest =
        text ++ '{' :: (inner ++ '}' :: (texts ++ '}' :: rest)) := by
      simp only [List.append_assoc, List.cons_append]
    rw [htext, hhead] at h
    obtain ⟨hlt', groups, hlen, hinner⟩ := exists_braces h
    have hk := ihi rfl (hlen ▸ hlt') hinner
    rw [hlen, List.length_cons] at hk
    obtain ⟨group', hg', hrest⟩ := exists_group_of_nested hi hk h
    have hn := ih hg' hlt hrest
    omega

end Phase

namespace Grammar

variable {text : List Char} {t t' : Selection} {m n limit : Nat}

/-- A query that is read has its field groups nested no deeper than allowed. -/
theorem Query.le_of_parse (h : Query text t n) (hp : Selection.parse (String.ofList text) limit = .ok t') : n ≤ limit := by
  obtain @⟨name, qualifier, body, trailing, argument, calls, es, n, hn, hq, hb, _⟩ := h
  have hhead := @Phase.reads_rootHead limit false (body ++ '}' :: trailing) name qualifier argument calls hn hq []
  rw [Selection.parse_eq_outcome, String.toList_ofList, ← List.append_assoc] at hp
  obtain ⟨hlt, groups, hlen, hinner⟩ := Phase.exists_braces (hhead.symm.trans hp)
  have hle := Phase.le_of_body hb rfl (hlen ▸ hlt) hinner
  rw [hlen, List.length_nil] at hle
  omega

/-- A text denotes one selection only, with its field groups nested in one way only. -/
theorem Query.unique (h : Query text t m) (h' : Query text t' n) : t = t' ∧ m = n := by
  have hparse {t : Selection} {n limit : Nat} (h : Query text t n) (hl : n ≤ limit) :
      Selection.parse (String.ofList text) limit = .ok t :=
    Selection.parse_of_query (by rwa [String.toList_ofList]) hl
  have ht := (hparse h (Nat.le_max_left m n)).symm.trans (hparse h' (Nat.le_max_right m n))
  exact ⟨Except.ok.inj ht, Nat.le_antisymm (h.le_of_parse (hparse h' le_rfl)) (h'.le_of_parse (hparse h le_rfl))⟩

/-! ## Other texts for a field group -/

variable {front body body' back : List Char} {es es' : List Selection} {path : List Step}

/-- With the same fields and nested no deeper, the text of a group leaves the denotation of the query as it is. -/
theorem GroupAt.exists_query (h : GroupAt front body back es path) {ds ds' : List Selection} (hb : Body body ds n)
    (hb' : Body body' ds' m) (he : fieldsOf ds' = fieldsOf ds) (hn : m ≤ n) :
    ∃ t l l', Query (front ++ (body ++ back)) t l ∧ Query (front ++ (body' ++ back)) t l' ∧ l' ≤ l := by
  induction h generalizing body' ds ds' m n with
  | @root name text body trailing argument calls es _ hname hq _ ht =>
    have hquery := Query.intro hname hq hb ht
    have hquery' := Query.intro hname hq hb' ht
    rw [he] at hquery'
    simp only [List.append_assoc, List.singleton_append]
    exact ⟨_, n, m, hquery, hquery', hn⟩
  | @nested front back before head inner after earlier is later owner path k p l _ hbefore hhead _ hafter ih =>
    have houter := hbefore.append (.group hhead hb hafter)
    have houter' := hbefore.append (.group hhead hb' hafter)
    rw [he] at houter'
    have hle : max p (max (m + 1) l) ≤ max p (max (n + 1) l) := by omega
    have hquery := ih houter houter' rfl hle
    simpa only [List.append_assoc, List.cons_append, List.nil_append] using hquery

/-- A query of which one field group is written in another way is read as before, if the fields of the group are the same and it
is nested no deeper. -/
theorem GroupAt.parse_congr (h : GroupAt front body back es path) {ds ds' : List Selection} (hb : Body body ds n)
    (hb' : Body body' ds' m) (he : fieldsOf ds' = fieldsOf ds) (hn : m ≤ n) {query : String}
    (htext : query.toList = front ++ (body ++ back)) (hp : Selection.parse query limit = .ok t) :
    Selection.parse (String.ofList (front ++ (body' ++ back))) limit = .ok t := by
  obtain ⟨l, hl, hquery⟩ := Selection.query_of_parse hp
  obtain ⟨t', m', l', hold, hnew, hle⟩ := h.exists_query hb hb' he hn
  rw [htext] at hquery
  obtain ⟨rfl, rfl⟩ := hquery.unique hold
  exact Selection.parse_of_query (by rwa [String.toList_ofList]) (hle.trans hl)

end Grammar

end RecordQuery
