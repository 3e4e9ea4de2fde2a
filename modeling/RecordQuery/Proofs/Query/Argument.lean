import RecordQuery.Proofs.Number.Denotation
import RecordQuery.Proofs.Query.Image
import RecordQuery.Store

/-!
# The argument of a query

A query without calls is a name, an argument and a field group (`Grammar.queryText`). Whatever stands between the parentheses is
the argument as it is, and the id that it names is what it denotes without the blanks around it: so the digits of an id name this
id, between any blanks that do not break the line.
-/

namespace RecordQuery

open Text Grammar

namespace Grammar

/-- The text of a query without calls. -/
def queryText (name argument group : String) : String := name ++ "(" ++ argument ++ ")\x7b" ++ group ++ "\x7d"

theorem toList_queryText (name argument group : String) :
    (queryText name argument group).toList =
      name.toList ++ ('(' :: (argument.toList ++ [')']) ++ '{' :: (group.toList ++ ['}'])) := by
  simp [queryText]

variable {name argument group : String} {es : List Selection} {n limit : Nat} {t : Selection}

/-- A name, an argument and a field group are read as a query, if no more field groups than allowed are nested in each other. -/
theorem parse_queryText (hn : RootName name.toList) (ha : Avoids argumentStops argument.toList) (hb : Body group.toList es n)
    (hl : n ≤ limit) :
    Selection.parse (queryText name argument group) limit =
      .ok (.group ⟨name, argumentOf argument.toList, []⟩ (fieldsOf es)) := by
  refine Selection.parse_of_query ?_ hl
  have hquery := Query.intro hn (.argument ha .nil layout_nil) hb blank_nil
  rw [String.ofList_toList] at hquery
  rwa [toList_queryText]

/-- A text without a closing parenthesis is the argument, if the query is read. -/
theorem argument_of_parse (hn : RootName name.toList) (ha : ')' ∉ argument.toList)
    (h : Selection.parse (queryText name argument group) limit = .ok t) :
    t.name = name ∧ t.argument = argumentOf argument.toList := by
  obtain ⟨n, _, hquery⟩ := Selection.query_of_parse h
  generalize htext : (queryText name argument group).toList = text at hquery
  rw [toList_queryText, List.cons_append] at htext
  obtain ⟨hn', hq, _, _⟩ := hquery
  cases hq with
  | argument ha' =>
    rw [List.cons_append] at htext
    obtain ⟨hname, -, hbehind⟩ := hn.avoids.append_cons_inj hn'.avoids (by decide) (by decide) htext
    simp only [List.append_assoc, List.cons_append, List.nil_append] at hbehind
    have hstop : Avoids [')'] argument.toList := fun c hc hs => ha (List.mem_singleton.mp hs ▸ hc)
    have hstop' : Avoids [')'] _ := fun c hc hs => ha' c hc (List.mem_cons.mpr (.inl (List.mem_singleton.mp hs)))
    obtain ⟨rfl, -⟩ := hstop.append_cons_inj hstop' (by decide) (by decide) hbehind
    refine ⟨?_, rfl⟩
    rw [Selection.name, Selection.head, ← hname, String.ofList_toList]
  | call hc =>
    obtain ⟨_, _⟩ := hc
    rw [List.cons_append] at htext
    obtain ⟨-, hmark, -⟩ := hn.avoids.append_cons_inj hn'.avoids (by decide) (by decide) htext
    cases hmark

end Grammar

namespace Selection

variable {t : Selection} {argument : String}

/-- An argument names an id exactly if it denotes it without the blanks around it. -/
theorem recordId_eq_ok_iff (h : t.argument = some argument) {id : Int64} :
    t.recordId = .ok id ↔ Number.Denotes (trim argument.toList) id.toInt := by
  simp only [← Number.readInt64_eq_ok_iff, recordId, h]
  cases Number.readInt64 (trim argument.toList) <;> simp

/-- An argument that names no id is reported as it stands, with its fault. -/
theorem recordId_eq_error_iff (h : t.argument = some argument) {e : ArgumentError} :
    t.recordId = .error e ↔ ∃ fault, e = .notNumeric argument fault ∧ Number.IsFault (trim argument.toList) fault := by
  simp only [← Number.readInt64_eq_error_iff, recordId, h]
  cases Number.readInt64 (trim argument.toList) with
  | ok n => simp
  | error fault => simp [eq_comm]

/-- What stands between the parentheses names the id that it denotes, and none if nothing stands there. -/
theorem recordId_argumentOf (h : t.argument = argumentOf argument.toList) {id : Int64} :
    t.recordId = .ok id ↔ Number.Denotes (trim argument.toList) id.toInt := by
  by_cases hnil : argument.toList = []
  · rw [argumentOf, if_pos hnil] at h
    rw [recordId, h, hnil]
    refine ⟨fun hid => ?_, fun hdenotes => absurd rfl hdenotes.ne_nil⟩
    cases hid
  · rw [argumentOf, if_neg hnil, String.ofList_toList] at h
    exact recordId_eq_ok_iff h

end Selection

/-! ## Ids as arguments -/

namespace Grammar

/-- Blanks that do not break the line may stand in an argument. -/
theorem avoids_argumentStops_of_blank {cs : List Char} (h : Blank cs) (hn : '\n' ∉ cs) : Avoids argumentStops cs := by
  intro c hc hs
  rcases List.mem_pair.mp hs with rfl | rfl
  · exact absurd (h _ hc) (by decide)
  · exact hn hc

theorem avoids_argumentStops_writeInt (n : Int) : Avoids argumentStops (Number.writeInt n) := by
  intro c hc hs
  rcases Number.mem_writeInt hc with rfl | hdigit
  · exact absurd hs (by decide)
  · rcases List.mem_pair.mp hs with rfl | rfl <;> cases hdigit

/-- The digits of an id between blanks denote it. -/
theorem denotes_padded {before behind : String} (hb : Blank before.toList) (hb' : Blank behind.toList) (id : Int64) :
    Number.Denotes (trim (before ++ idText id ++ behind).toList) id.toInt := by
  rw [String.toList_append, String.toList_append, idText, String.toList_ofList, trim_append_blank hb',
    trim_append_of_blank hb, Number.trim_writeInt]
  exact Number.denotes_writeInt id.toInt

/-- The digits of an id between blanks that do not break the line may stand in an argument. -/
theorem avoids_argumentStops_padded {before behind : String} (hb : Blank before.toList) (hn : '\n' ∉ before.toList)
    (hb' : Blank behind.toList) (hn' : '\n' ∉ behind.toList) (id : Int64) :
    Avoids argumentStops (before ++ idText id ++ behind).toList := by
  rw [String.toList_append, String.toList_append, idText, String.toList_ofList]
  refine avoids_append.mpr ⟨avoids_append.mpr ⟨?_, avoids_argumentStops_writeInt _⟩, ?_⟩
  · exact avoids_argumentStops_of_blank hb hn
  · exact avoids_argumentStops_of_blank hb' hn'

end Grammar

/-- An argument names the id that it denotes without the blanks around it, if that fits 64 bits, and otherwise it is reported as it
stands, with what is wrong with it. So between blanks that do not break the line the digits of an id name it, whatever the name of
the requested record and its field group are. -/
theorem Selection.recordId_eq_iff :
    (∀ (t : Selection) (argument : String), t.argument = some argument →
      (∀ id : Int64, t.recordId = .ok id ↔ Number.Denotes (trim argument.toList) id.toInt) ∧
        ∀ e, t.recordId = .error e ↔
          ∃ fault, e = .notNumeric argument fault ∧ Number.IsFault (trim argument.toList) fault) ∧
      ∀ (id : Int64) (name before behind group : String) (es : List Selection) (n limit : Nat),
        RootName name.toList → Blank before.toList → '\n' ∉ before.toList → Blank behind.toList → '\n' ∉ behind.toList →
        Body group.toList es n → n ≤ limit →
        ∃ t, Selection.parse (queryText name (before ++ idText id ++ behind) group) limit = .ok t ∧ t.recordId = .ok id := by
  refine ⟨fun t argument h => ⟨fun _ => recordId_eq_ok_iff h, fun _ => recordId_eq_error_iff h⟩, ?_⟩
  intro id name before behind group es n limit hname hb hn hb' hn' hgroup hl
  have hdenotes := denotes_padded hb hb' id
  refine ⟨_, parse_queryText hname (avoids_argumentStops_padded hb hn hb' hn' id) hgroup hl, ?_⟩
  exact (recordId_argumentOf rfl).mpr hdenotes

/-- A selection that has an argument and nothing else. -/
def withArgument (argument : String) : Selection := .group ⟨"node", some argument, []⟩ []

/-- A plus sign and zeros in front do not count, what stands behind digits that leave the range does not either, and the least id
is named between blanks. -/
theorem Selection.recordId_eq_iff_instances :
    (withArgument "\t+007 ").recordId = .ok 7 ∧
      (withArgument "9223372036854775808x").recordId = .error (.notNumeric "9223372036854775808x" .tooLarge) ∧
      ∃ t, Selection.parse (queryText "n" (" " ++ idText (-0x8000000000000000) ++ "\t") "") 1 = .ok t ∧
        t.recordId = .ok (-0x8000000000000000) := by
  obtain ⟨htold, hnames⟩ := Selection.recordId_eq_iff
  refine ⟨?_, ?_, ?_⟩
  · have hdenotes : Number.Denotes (['+'] ++ ['0', '0', '7']) (Number.signed false (Number.magnitude ['0', '0', '7'])) :=
      .intro .plus (List.all_eq_true.mp rfl) (List.cons_ne_nil _ _)
    exact ((htold (withArgument "\t+007 ") _ rfl).1 7).mpr hdenotes
  · have hdenotes : Number.Denotes ([] ++ "9223372036854775808".toList)
        (Number.signed false (Number.magnitude "9223372036854775808".toList)) :=
      .intro .none (List.all_eq_true.mp rfl) (List.cons_ne_nil _ _)
    refine ((htold (withArgument "9223372036854775808x") _ rfl).2 _).mpr ⟨.tooLarge, rfl, .tooLarge ?_ (by decide)⟩
    exact ⟨_, _, ⟨['x'], rfl⟩, hdenotes, by decide⟩
  · have hname : RootName "n".toList := ⟨List.cons_ne_nil _ _, avoids_cons.mpr ⟨by decide, avoids_nil _⟩⟩
    exact hnames _ "n" " " "\t" "" [] 1 1 hname (all_isBlank_iff.mp rfl) (by decide) (all_isBlank_iff.mp rfl) (by decide)
      .done (Nat.le_refl 1)

end RecordQuery
