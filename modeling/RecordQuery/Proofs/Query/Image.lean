import RecordQuery.Proofs.Keyed
import RecordQuery.Proofs.Query.Derivation

/-!
# Which selections are read

The selections that come out of some query, told by their shape alone (`Selection.IsQuery`), and a query for each of them
(`Selection.canonical`). What a derivation denotes has the shape, by induction on the derivation; the canonical text of a
selection of that shape has a derivation, by induction on the shape, and the selection is what it denotes because fields that
ascend already are not reordered.
-/

namespace RecordQuery

open Text Grammar

/-! ## The shape of what is read -/

/-- A word without outer blanks in which none of these characters occurs. -/
structure Word (stops : List Char) (word : String) : Prop where
  nonempty : word.toList ≠ []
  avoids : Avoids stops word.toList
  trimmed : Trimmed word.toList

/-- What may stand between parentheses, if something does. -/
def IsArgument (argument : Option String) : Prop := ∀ text ∈ argument, text.toList ≠ [] ∧ Avoids argumentStops text.toList

/-- A call as it can be asked for. -/
structure Call.IsCall (c : Call) : Prop where
  name : Word callStops c.name
  argument : IsArgument c.argument

/-- What can be said about an object besides its name. -/
structure Head.IsQualified (h : Head) : Prop where
  argument : IsArgument h.argument
  calls : ∀ c ∈ h.calls, c.IsCall

namespace Selection

/-- A field as it can be asked for: nothing but a name is said about a leaf, and the fields of a group stand under their
names. -/
inductive IsField : Selection → Prop where
  | leaf {name : String} (hn : Word fieldStops name) : IsField (.leaf ⟨name, none, []⟩)
  | group {h : Head} {fields : List Selection} (hn : Word fieldStops h.name) (hq : h.IsQualified)
      (ha : Keyed.Ascending Selection.name fields) (hf : ∀ f ∈ fields, IsField f) : IsField (.group h fields)

/-- A selection as a query can ask for it. -/
inductive IsQuery : Selection → Prop where
  | intro {h : Head} {fields : List Selection} (hn : RootName h.name.toList) (hq : h.IsQualified)
      (ha : Keyed.Ascending Selection.name fields) (hf : ∀ f ∈ fields, f.IsField) : IsQuery (.group h fields)

end Selection

/-! ## What a derivation denotes has the shape -/

namespace Grammar

/-- What is kept of a name when it is trimmed is a word. -/
theorem word_wordOf {stops text : List Char} (ha : Avoids stops text) (hb : ¬Blank text) : Word stops (wordOf text) := by
  have htext : (wordOf text).toList = trim text := String.toList_ofList
  refine ⟨?_, ?_, ?_⟩
  · rw [htext]
    exact fun h => hb (trim_eq_nil_iff.mp h)
  · rw [htext]
    exact fun c hc => ha c (mem_of_mem_trim hc)
  · rw [htext]
    exact trimmed_trim text

/-- What stands between parentheses is an argument, or none. -/
theorem isArgument_argumentOf {text : List Char} (ha : Avoids argumentStops text) : IsArgument (argumentOf text) := by
  intro argument h
  rw [argumentOf] at h
  split at h
  next => cases h
  next hne =>
    cases h
    rw [String.toList_ofList]
    exact ⟨hne, ha⟩

/-- A call that is derived can be asked for. -/
theorem CallText.isCall {text : List Char} {c : Call} (h : CallText text c) : c.IsCall := by
  obtain ⟨hn, ha⟩ := h
  exact ⟨word_wordOf hn.avoids hn.notBlank, isArgument_argumentOf ha⟩

theorem CallsText.isCall {texts : List Char} {cs : List Call} (h : CallsText texts cs) : ∀ c ∈ cs, c.IsCall := by
  induction h with
  | nil => exact fun c hc => absurd hc List.not_mem_nil
  | cons _ hc _ ih => exact List.forall_mem_cons.mpr ⟨hc.isCall, ih⟩

/-- What a qualifier says can be said about an object. -/
theorem Qualifier.isQualified {text : List Char} {name : String} {argument : Option String} {calls : List Call}
    (h : Qualifier text argument calls) : Head.IsQualified ⟨name, argument, calls⟩ := by
  cases h with
  | argument ha hs _ => exact ⟨isArgument_argumentOf ha, hs.isCall⟩
  | call hc hs _ => exact ⟨fun _ h => (nomatch h), List.forall_mem_cons.mpr ⟨hc.isCall, hs.isCall⟩⟩

/-- The head of a nested field group has a word for its name and says what can be said. -/
theorem FieldHead.isQualified {text : List Char} {h : Head} (hh : FieldHead text h) :
    Word fieldStops h.name ∧ h.IsQualified := by
  cases hh with
  | bare hn => exact ⟨word_wordOf hn.avoids hn.notBlank, fun _ h => (nomatch h), fun c hc => absurd hc List.not_mem_nil⟩
  | qualified hn hq => exact ⟨word_wordOf hn.avoids hn.notBlank, hq.isQualified⟩

/-- The fields of a group ascend. -/
theorem ascending_fieldsOf (es : List Selection) : Keyed.Ascending Selection.name (fieldsOf es) :=
  Keyed.ascending_foldl_insert (Keyed.ascending_nil _) es

/-- The fields of a group are entries of it. -/
theorem mem_of_mem_fieldsOf {e : Selection} {es : List Selection} (h : e ∈ fieldsOf es) : e ∈ es := by
  rcases Keyed.mem_foldl_insert h with h | h
  · exact absurd h List.not_mem_nil
  · exact h

/-- Fields that ascend already are the fields of their group. -/
theorem fieldsOf_of_ascending {fields : List Selection} (h : Keyed.Ascending Selection.name fields) :
    fieldsOf fields = fields := by
  rw [← List.nil_append fields] at h
  exact Keyed.foldl_insert_of_ascending h

/-- Fields are nested no deeper than the deepest of them. -/
theorem heightAll_le_iff {fields : List Selection} {n : Nat} :
    Selection.heightAll fields ≤ n ↔ ∀ f ∈ fields, f.height ≤ n := by
  induction fields with
  | nil => simp [Selection.heightAll]
  | cons f fields ih => rw [Selection.heightAll, Nat.max_le, ih, List.forall_mem_cons]

/-- The fields of a group are nested less deep than a bound for its entries. -/
theorem heightAll_fieldsOf_lt {es : List Selection} {n : Nat} (hn : 1 ≤ n) (h : ∀ e ∈ es, e.height + 1 ≤ n) :
    Selection.heightAll (fieldsOf es) + 1 ≤ n := by
  have hle : Selection.heightAll (fieldsOf es) ≤ n - 1 := by
    refine heightAll_le_iff.mpr fun f hf => ?_
    have hlt := h f (mem_of_mem_fieldsOf hf)
    omega
  omega

/-- The entries of a field group are fields, and nested less deep than it. -/
theorem Body.isField {text : List Char} {es : List Selection} {n : Nat} (h : Body text es n) :
    ∀ e ∈ es, e.IsField ∧ e.height + 1 ≤ n := by
  induction h with
  | done => exact fun e he => absurd he List.not_mem_nil
  | comma _ ih => exact ih
  | blanks _ _ ih => exact ih
  | leaf hn _ hb ih => exact List.forall_mem_cons.mpr ⟨⟨.leaf (word_wordOf hn.avoids hn.notBlank), hb.one_le⟩, ih⟩
  | @group text inner texts owner is es k n ho hi hb ihi ih =>
    obtain ⟨hn, hq⟩ := ho.isQualified
    have hf : ∀ f ∈ fieldsOf is, f.IsField := fun f hf => (ihi f (mem_of_mem_fieldsOf hf)).1
    have hk := heightAll_fieldsOf_lt hi.one_le fun f hf => (ihi f hf).2
    refine List.forall_mem_cons.mpr ⟨⟨.group hn hq (ascending_fieldsOf is) hf, ?_⟩, fun e he => ⟨(ih e he).1, ?_⟩⟩
    · rw [Selection.height]
      omega
    · have hlt := (ih e he).2
      omega

/-- What a query asks for has the shape of a query, and is nested as deep as the query at most. -/
theorem Query.isQuery {text : List Char} {t : Selection} {n : Nat} (h : Query text t n) : t.IsQuery ∧ t.height ≤ n := by
  obtain @⟨name, qualifier, body, trailing, argument, calls, es, n, hn, hq, hb, _⟩ := h
  constructor
  · refine .intro ?_ hq.isQualified (ascending_fieldsOf es) fun f hf => (hb.isField f (mem_of_mem_fieldsOf hf)).1
    rwa [String.toList_ofList]
  · have hlt := heightAll_fieldsOf_lt hb.one_le fun e he => (hb.isField e he).2
    rw [Selection.height]
    omega

end Grammar

/-! ## A query for every selection of the shape -/

/-- An argument in its parentheses, with nothing between them if there is none. -/
def canonicalArgument (argument : Option String) : List Char := '(' :: ((argument.getD "").toList ++ [')'])

/-- A call behind its dot. -/
def Call.canonical (c : Call) : List Char := '.' :: (c.name.toList ++ canonicalArgument c.argument)

/-- The name of an object with its parentheses and calls. -/
def Head.canonical (h : Head) : List Char :=
  h.name.toList ++ (canonicalArgument h.argument ++ h.calls.flatMap Call.canonical)

namespace Selection

mutual

/-- The text of a selection without anything that could be left out, parentheses apart. -/
def canonical : Selection → List Char
  | leaf h => h.name.toList
  | group h fs => h.canonical ++ '{' :: (canonicalFields fs ++ ['}'])

/-- The texts of fields with commas between them. -/
def canonicalFields : List Selection → List Char
  | [] => []
  | [f] => f.canonical
  | f :: g :: fs => f.canonical ++ ',' :: canonicalFields (g :: fs)

end

end Selection

namespace Grammar

/-- A word stands for itself. -/
theorem wordOf_word {stops : List Char} {word : String} (h : Word stops word) : wordOf word.toList = word := by
  rw [wordOf, trim_eq_self_iff.mpr h.trimmed, String.ofList_toList]

theorem callName_word {word : String} (h : Word callStops word) : CallName word.toList :=
  ⟨h.avoids, h.trimmed.not_blank h.nonempty⟩

theorem fieldName_word {word : String} (h : Word fieldStops word) : FieldName word.toList :=
  ⟨h.avoids, h.trimmed.not_blank h.nonempty⟩

/-- What is written between parentheses stands for the argument. -/
theorem argumentOf_canonical {argument : Option String} (h : IsArgument argument) :
    Avoids argumentStops (argument.getD "").toList ∧ argumentOf (argument.getD "").toList = argument := by
  cases argument with
  | none => exact ⟨avoids_nil _, rfl⟩
  | some text =>
    obtain ⟨hne, ha⟩ := h text rfl
    refine ⟨ha, ?_⟩
    rw [argumentOf, Option.getD_some, if_neg hne, String.ofList_toList]

/-- The canonical text of a call is a call. -/
theorem callText_canonical {c : Call} (h : c.IsCall) : CallText c.canonical c := by
  obtain ⟨ha, harg⟩ := argumentOf_canonical h.argument
  have hc : CallText c.canonical ⟨wordOf c.name.toList, argumentOf (c.argument.getD "").toList⟩ :=
    .intro (callName_word h.name) ha
  rwa [wordOf_word h.name, harg] at hc

theorem callsText_canonical {cs : List Call} (h : ∀ c ∈ cs, c.IsCall) : CallsText (cs.flatMap Call.canonical) cs := by
  induction cs with
  | nil => exact .nil
  | cons c cs ih =>
    obtain ⟨hc, hcs⟩ := List.forall_mem_cons.mp h
    exact .cons layout_nil (callText_canonical hc) (ih hcs)

/-- The parentheses and calls of an object qualify it. -/
theorem qualifier_canonical {h : Head} (hq : h.IsQualified) :
    Qualifier (canonicalArgument h.argument ++ h.calls.flatMap Call.canonical) h.argument h.calls := by
  obtain ⟨ha, harg⟩ := argumentOf_canonical hq.argument
  have hqual := Qualifier.argument ha (callsText_canonical hq.calls) layout_nil
  rw [harg, List.append_nil] at hqual
  have htext : canonicalArgument h.argument ++ h.calls.flatMap Call.canonical =
      '(' :: ((h.argument.getD "").toList ++ ')' :: h.calls.flatMap Call.canonical) := by
    simp only [canonicalArgument, List.cons_append, List.append_assoc, List.nil_append]
  rwa [htext]

/-- The canonical text of a head is the head of a nested field group. -/
theorem fieldHead_canonical {h : Head} (hn : Word fieldStops h.name) (hq : h.IsQualified) : FieldHead h.canonical h := by
  have hh := FieldHead.qualified (fieldName_word hn) (qualifier_canonical hq)
  rwa [wordOf_word hn] at hh

/-- The canonical texts of fields are the entries of a field group, if each of them is one in front of others. -/
theorem body_canonicalFields {fields : List Selection}
    (h : ∀ f ∈ fields, ∀ text es n, (text = [] ∨ text.head? = some ',') → Body text es n →
      Body (f.canonical ++ text) (f :: es) (max (f.height + 1) n)) :
    Body (Selection.canonicalFields fields) fields (1 + Selection.heightAll fields) := by
  induction fields with
  | nil => exact .done
  | cons f fields ih =>
    obtain ⟨hf, hfields⟩ := List.forall_mem_cons.mp h
    have hrest := ih hfields
    rw [Selection.heightAll, ← Nat.add_max_add_left, Nat.add_comm 1 f.height]
    cases fields with
    | nil =>
      have hbody := hf [] [] _ (.inl rfl) .done
      rwa [List.append_nil] at hbody
    | cons g fields => exact hf _ _ _ (.inr rfl) (.comma hrest)

/-- The canonical text of a field is an entry of a field group in front of others. -/
theorem body_canonical {f : Selection} (hf : f.IsField) :
    ∀ text es n, (text = [] ∨ text.head? = some ',') → Body text es n →
      Body (f.canonical ++ text) (f :: es) (max (f.height + 1) n) := by
  induction hf with
  | @leaf name hn =>
    intro text es n he hb
    have hbody := Body.leaf (fieldName_word hn) he hb
    rw [wordOf_word hn] at hbody
    have hone := hb.one_le
    rwa [Selection.height, Nat.zero_add, Nat.max_eq_right hone]
  | @group h fields hn hq ha _ ih =>
    intro text es n _ hb
    have hbody := Body.group (fieldHead_canonical hn hq) (body_canonicalFields ih) hb
    rw [fieldsOf_of_ascending ha] at hbody
    have htext : (Selection.group h fields).canonical ++ text =
        h.canonical ++ '{' :: (Selection.canonicalFields fields ++ '}' :: text) := by
      simp only [Selection.canonical, List.append_assoc, List.cons_append, List.nil_append]
    rwa [htext]

/-- The canonical text of a selection that has the shape of a query is a query for it. -/
theorem query_canonical {t : Selection} (h : t.IsQuery) : Query t.canonical t t.height := by
  obtain @⟨h, fields, hn, hq, ha, hf⟩ := h
  have hb := body_canonicalFields fun f hm => body_canonical (hf f hm)
  have hquery := Query.intro hn (qualifier_canonical hq) hb blank_nil
  rw [String.ofList_toList, fieldsOf_of_ascending ha] at hquery
  have htext : (Selection.group h fields).canonical =
      h.name.toList ++ (canonicalArgument h.argument ++ h.calls.flatMap Call.canonical ++
        '{' :: (Selection.canonicalFields fields ++ ['}'])) := by
    simp only [Selection.canonical, Head.canonical, List.append_assoc]
  rwa [htext]

end Grammar

/-- The selections that come out of a query are those that have the shape of one and are not nested too deep, and each of them
comes out of its canonical text. -/
theorem Selection.parse_image (t : Selection) (limit : Nat) :
    ((∃ query, Selection.parse query limit = .ok t) ↔ t.IsQuery ∧ t.height ≤ limit) ∧
      (Selection.parse (String.ofList t.canonical) limit = .ok t ↔ t.IsQuery ∧ t.height ≤ limit) := by
  have himage (query : String) (h : Selection.parse query limit = .ok t) : t.IsQuery ∧ t.height ≤ limit := by
    obtain ⟨n, hn, hq⟩ := Selection.query_of_parse h
    exact ⟨hq.isQuery.1, Nat.le_trans hq.isQuery.2 hn⟩
  have hcanonical (h : t.IsQuery ∧ t.height ≤ limit) : Selection.parse (String.ofList t.canonical) limit = .ok t := by
    refine Selection.parse_of_query ?_ h.2
    rw [String.toList_ofList]
    exact query_canonical h.1
  refine ⟨⟨?_, fun h => ⟨_, hcanonical h⟩⟩, himage _, hcanonical⟩
  rintro ⟨query, h⟩
  exact himage query h

end RecordQuery
