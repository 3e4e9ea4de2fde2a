import RecordQuery.Proofs.Registry.Data
import RecordQuery.Proofs.Selection.Outline

/-!
# What a check says about a run

A check reads a query as it stands, a run without the blanks at its ends. Blanks behind a query that is accepted make no
difference, but those in front belong to the name of the requested record in a check only, so a run of an accepted query looks
up the name without them, and there is no name where it consists of blanks (`run_of_check`). A query without outer blanks is read
alike by both.
-/

namespace RecordQuery

open Text Grammar

/-! ## Queries without their outer blanks -/

namespace Grammar

/-- What follows the name of the requested record starts with a parenthesis or a dot. -/
theorem Qualifier.exists_cons {text : List Char} {argument : Option String} {calls : List Call}
    (h : Qualifier text argument calls) : ∃ c rest, text = c :: rest ∧ c ∈ nameStops := by
  cases h with
  | argument => exact ⟨'(', _, rfl, by decide⟩
  | call hc =>
    cases hc
    exact ⟨'.', _, rfl, by decide⟩

/-- Trimming a query drops the blanks in front of the name and those behind the last brace. -/
theorem trim_query {name text body trailing : List Char} {argument : Option String} {calls : List Call}
    (hq : Qualifier text argument calls) (ht : Blank trailing) :
    trim (name ++ (text ++ '{' :: (body ++ '}' :: trailing))) =
      name.dropWhile isBlank ++ (text ++ '{' :: (body ++ ['}'])) := by
  obtain ⟨c, rest, rfl, hc⟩ := hq.exists_cons
  have hsolid : isBlank c = false := by
    rcases List.mem_pair.mp hc with rfl | rfl <;> rfl
  have hsplit : name.dropWhile isBlank ++ (c :: rest ++ '{' :: (body ++ '}' :: trailing)) =
      name.dropWhile isBlank ++ (c :: rest ++ '{' :: (body ++ ['}'])) ++ trailing := by
    simp only [List.append_assoc, List.cons_append, List.nil_append]
  -- what is left ends with a brace, and the blanks dropped from the name stop at the qualifier at the latest
  rw [trim, dropWhile_isBlank_append name, hsplit, trimEnd_append_blank ht]
  · intro d hd
    rw [← List.cons_append, ← List.append_assoc, ← List.append_assoc, List.getLast?_concat] at hd
    cases hd
    rfl
  · intro d hd
    cases hd
    exact hsolid

/-- Blanks around a query leave it a query. -/
theorem exists_query_of_trim {text : List Char} {t : Selection} {n : Nat} (h : Query (trim text) t n) :
    ∃ t', Query text t' n := by
  obtain ⟨trailing', htrailing', hsplit⟩ := exists_trim_split text
  generalize htrim : trim text = inner at h hsplit
  obtain @⟨name, qualifier, body, trailing, argument, calls, es, n, hn, hq, hb, ht⟩ := h
  have hlead := blank_takeWhile text
  -- the blanks in front become a part of the name, since no blank ends it
  have hname : RootName (text.takeWhile isBlank ++ name) :=
    ⟨List.append_ne_nil_of_right_ne_nil _ hn.nonempty, avoids_append.mpr ⟨hlead.avoids_nameStops, hn.avoids⟩⟩
  have hquery := Query.intro hname hq hb (blank_append.mpr ⟨ht, htrailing'⟩)
  simp only [List.append_assoc, List.cons_append] at hsplit hquery
  rw [← hsplit] at hquery
  exact ⟨_, hquery⟩

end Grammar

namespace Selection

/-! ## The outcome without the outer blanks -/

variable {query : String} {limit : Nat}

/-- There is no name in front of the first parenthesis or dot. -/
theorem parse_noRoot {c : Char} {rest : List Char} (h : query.toList = c :: rest) (hc : c ∈ nameStops) :
    ∃ kind, parse query limit = .error (.noRoot kind) := by
  have hmove := @Move.objectName false [] [] rest c (avoids_nil _) hc
  rw [parse_eq_outcome, h]
  refine ⟨if c = '(' then .leftParen else .dot, (Stage.outcome_of_silent hmove).trans ?_⟩
  rcases List.mem_pair.mp hc with rfl | rfl
  · exact Stage.outcome_of_failed .leftParen rfl
  · exact Stage.outcome_of_failed .dot rfl

/-- Without its outer blanks an accepted query asks for the same, but the name has no blanks in front; there is no name if it
consists of blanks. -/
theorem parse_trimmed {t : Selection} (h : parse query limit = .ok t) :
    (Blank t.name.toList → ∃ kind, parse (trimmed query) limit = .error (.noRoot kind)) ∧
      (¬Blank t.name.toList → parse (trimmed query) limit =
        .ok (group { t.head with name := String.ofList (t.name.toList.dropWhile isBlank) } t.fields)) := by
  obtain ⟨n, hn, hquery⟩ := query_of_parse h
  generalize htext : query.toList = text at hquery
  obtain @⟨name, qualifier, body, trailing, argument, calls, es, n, hroot, hq, hb, ht⟩ := hquery
  have htrim : (trimmed query).toList = name.dropWhile isBlank ++ (qualifier ++ '{' :: (body ++ ['}'])) := by
    rw [trimmed, String.toList_ofList, htext, trim_query hq ht]
  simp only [Selection.name, head, fields, String.toList_ofList]
  constructor
  · intro hblank
    have hnil : name.dropWhile isBlank = [] := List.dropWhile_eq_nil_iff.mpr hblank
    obtain ⟨c, rest, rfl, hc⟩ := hq.exists_cons
    rw [hnil] at htrim
    exact parse_noRoot htrim hc
  · intro hblank
    have hne : name.dropWhile isBlank ≠ [] := fun hnil => hblank (List.dropWhile_eq_nil_iff.mp hnil)
    have hname : RootName (name.dropWhile isBlank) :=
      ⟨hne, fun c hc => hroot.avoids c ((List.dropWhile_sublist _).subset hc)⟩
    refine parse_of_query (n := n) ?_ hn
    rw [htrim]
    exact .intro hname hq hb blank_nil

/-- A query that is in error stays so without its outer blanks. -/
theorem exists_error_trimmed {e : ParseError} (h : parse query limit = .error e) :
    ∃ e', parse (trimmed query) limit = .error e' := by
  cases htrimmed : parse (trimmed query) limit with
  | error e' => exact ⟨e', rfl⟩
  | ok t =>
    obtain ⟨n, hn, hquery⟩ := query_of_parse htrimmed
    rw [trimmed, String.toList_ofList] at hquery
    obtain ⟨t', hquery'⟩ := exists_query_of_trim hquery
    rw [parse_of_query hquery' hn] at h
    cases h

/-- The name of what is read is in the outline. -/
theorem member?_name_of_parse {t : Selection} (h : parse query limit = .ok t) :
    t.outline.member? "name" = some (.string t.name) := by
  obtain ⟨n, _, hquery⟩ := query_of_parse h
  cases hquery.isQuery.1
  exact (Head.member?_outline _ _).2.2.2

end Selection

/-! ## Checks and runs -/

variable {data : FileContents} {r : Registry} {query : String} {maxDepth : Option Nat}

/-- Loading a data file leaves the limit of nesting as it is by default. -/
theorem Registry.maxDepth_of_load (h : load data = .ok r) : r.maxDepth = defaultDepth := by
  obtain ⟨document, hdocument⟩ : ∃ document, HoldsDocument data document := by
    simp only [load] at h
    split at h
    · cases h
    next text htext =>
      split at h
      · cases h
      next document hjson => exact ⟨document, text, htext, hjson⟩
  obtain ⟨_, ⟨_, r', _, hload, hadds⟩ | ⟨e, hload, _⟩⟩ := load_cases hdocument
  · rw [hload] at h
    cases h
    exact hadds.maxDepth
  · rw [hload] at h
    cases h

/-- What comes of a query that looks up the store with a name: it has been read, and only an unknown store with that name is
reported. -/
structure Registry.LooksUp (r : Registry) (name : String) (outcome : Except CommandError Record) : Prop where
  resolved : ∃ t : Selection, t.name = name ∧ outcome = (r.resolve t).mapError .query
  isRead : ∀ e, outcome ≠ .error (.query (.parse e))
  unknown : ∀ n, outcome = .error (.query (.unknownStore n)) ↔ n = name ∧ r.isRegistered name = false

/-- To resolve a selection is to look up the store with its name. -/
theorem Registry.looksUp_resolve (r : Registry) (t : Selection) : r.LooksUp t.name ((r.resolve t).mapError .query) := by
  rcases r.resolve_cases t with ⟨hfree, he⟩ | ⟨hheld, ⟨e, he⟩ | ⟨e, he⟩ | ⟨record, he⟩⟩
  · refine ⟨⟨t, rfl, rfl⟩, fun _ => ?_, fun n => ?_⟩ <;> simp [he, hfree, Except.mapError, eq_comm]
  · refine ⟨⟨t, rfl, rfl⟩, fun _ => ?_, fun n => ?_⟩ <;> simp [he, hheld, Except.mapError]
  · refine ⟨⟨t, rfl, rfl⟩, fun _ => ?_, fun n => ?_⟩ <;> simp [he, hheld, Except.mapError]
  · refine ⟨⟨t, rfl, rfl⟩, fun _ => ?_, fun n => ?_⟩ <;> simp [he, hheld, Except.mapError]

/-- A run resolves what is read of the query without its outer blanks. -/
theorem run_of_load (h : Registry.load data = .ok r) :
    run query data maxDepth =
      match Selection.parse (trimmed query) (maxDepth.getD defaultDepth) with
      | .error e => .error (.query (.parse e))
      | .ok t => (r.resolve t).mapError .query := by
  have hdepth : maxDepth.getD r.maxDepth = maxDepth.getD defaultDepth := by
    rw [Registry.maxDepth_of_load h]
  simp only [run, h, Registry.execute, hdepth]
  cases Selection.parse (trimmed query) (maxDepth.getD defaultDepth) <;> rfl

/-- A check shows the outline of what is read, and of nothing else. -/
theorem check_eq_outline_iff {document : Json} :
    check query maxDepth false = .ok (.outline document) ↔
      ∃ t, Selection.parse query (maxDepth.getD defaultDepth) = .ok t ∧ t.outline = document := by
  simp only [check]
  cases Selection.parse query (maxDepth.getD defaultDepth) <;> simp

/-- A query that is read is shown in outline. -/
theorem check_of_parse (maxDepth : Option Nat) {t : Selection}
    (h : Selection.parse query (maxDepth.getD defaultDepth) = .ok t) :
    check query maxDepth false = .ok (.outline t.outline) :=
  check_eq_outline_iff.mpr ⟨t, h, rfl⟩

/-- A check reports the error of reading the query, and no other. -/
theorem check_eq_error_iff {e : CommandError} :
    check query maxDepth false = .error e ↔
      ∃ e', Selection.parse query (maxDepth.getD defaultDepth) = .error e' ∧ e = .parse e' := by
  simp only [check]
  cases Selection.parse query (maxDepth.getD defaultDepth) <;> simp [eq_comm]

/-- What a check of a query says about the run, over a data file that is loaded. If the check accepts the query, it shows a name,
and the run looks up the name without the blanks in front; a name of blanks is none. If the check reports an error, the run
reports one; and a check of the query without its outer blanks reports just the error of the run. -/
theorem run_of_check (h : Registry.load data = .ok r) (query : String) (maxDepth : Option Nat) :
    (∀ document, check query maxDepth false = .ok (.outline document) →
      ∃ name, document.member? "name" = some (.string name) ∧
        (Blank name.toList → ∃ kind, run query data maxDepth = .error (.query (.parse (.noRoot kind)))) ∧
        (¬Blank name.toList → r.LooksUp (String.ofList (name.toList.dropWhile isBlank)) (run query data maxDepth))) ∧
    (∀ e, check query maxDepth false = .error e → ∃ e', run query data maxDepth = .error (.query (.parse e'))) ∧
    ∀ e, check (trimmed query) maxDepth false = .error (.parse e) ↔ run query data maxDepth = .error (.query (.parse e)) := by
  rw [run_of_load h]
  refine ⟨?_, ?_, fun e => ?_⟩
  · intro document hcheck
    obtain ⟨t, ht, rfl⟩ := check_eq_outline_iff.mp hcheck
    obtain ⟨hblank, hnamed⟩ := Selection.parse_trimmed ht
    refine ⟨t.name, Selection.member?_name_of_parse ht, fun hb => ?_, fun hb => ?_⟩
    · obtain ⟨kind, hkind⟩ := hblank hb
      rw [hkind]
      exact ⟨kind, rfl⟩
    · rw [hnamed hb]
      exact r.looksUp_resolve (.group { t.head with name := String.ofList (t.name.toList.dropWhile isBlank) } t.fields)
  · intro e hcheck
    obtain ⟨e', he', _⟩ := check_eq_error_iff.mp hcheck
    obtain ⟨e'', he''⟩ := Selection.exists_error_trimmed he'
    rw [he'']
    exact ⟨e'', rfl⟩
  · rw [check_eq_error_iff]
    cases hparse : Selection.parse (trimmed query) (maxDepth.getD defaultDepth) with
    | error e' =>
      constructor
      · rintro ⟨_, he, ⟨⟩⟩
        cases he
        rfl
      · intro he
        cases he
        exact ⟨_, rfl, rfl⟩
    | ok t =>
      constructor
      · rintro ⟨_, he, _⟩
        cases he
      · exact fun he => absurd he ((r.looksUp_resolve t).isRead e)

/-- A data file without stores. -/
def noStores : FileContents := .ok (encodeUtf8 "\x7b\x7d")

theorem load_noStores : Registry.load noStores = .ok .empty := by
  have htext : readText noStores = .ok "\x7b\x7d" := by
    rw [noStores, readText, decodeUtf8?_encodeUtf8]
  have hjson : Json.parse "\x7b\x7d" = .ok (.object []) := rfl
  simp only [Registry.load, htext, hjson]
  rfl

/-- The name that a check shows with a blank in front is looked up without it. -/
theorem run_of_check_leadingBlank :
    ∃ document, check " node(1)\x7bid\x7d" none false = .ok (.outline document) ∧
      document.member? "name" = some (.string " node") ∧
      Registry.LooksUp .empty "node" (run " node(1)\x7bid\x7d" noStores none) := by
  have hparse : Selection.parse " node(1)\x7bid\x7d" = .ok (.group ⟨" node", some "1", []⟩ [.leaf ⟨"id", none, []⟩]) := by
    decide +kernel
  have hcheck := check_of_parse none hparse
  obtain ⟨name, hname, _, hlooksUp⟩ := (run_of_check load_noStores " node(1)\x7bid\x7d" none).1 _ hcheck
  cases hname.symm.trans (Selection.member?_name_of_parse hparse)
  refine ⟨_, hcheck, hname, ?_⟩
  exact hlooksUp fun hblank => absurd (hblank 'n' (by decide)) (by decide)

/-- A check does not always show what a run reads: a name of blanks is shown, and there is no name in the run. -/
theorem looksUp_of_check_false :
    ¬∀ query maxDepth data r document name, Registry.load data = .ok r →
      check query maxDepth false = .ok (.outline document) → document.member? "name" = some (.string name) →
      r.LooksUp name (run query data maxDepth) := by
  intro hall
  have hparse : Selection.parse " (1)\x7bid\x7d" = .ok (.group ⟨" ", some "1", []⟩ [.leaf ⟨"id", none, []⟩]) := by
    decide +kernel
  have hcheck := check_of_parse none hparse
  have hlooksUp := hall " (1)\x7bid\x7d" none noStores .empty _ " " load_noStores hcheck (Selection.member?_name_of_parse hparse)
  have hrun : run " (1)\x7bid\x7d" noStores none = .error (.query (.parse (.noRoot .leftParen))) := by
    have hnone : Selection.parse (trimmed " (1)\x7bid\x7d") = .error (.noRoot .leftParen) := by decide +kernel
    rw [run_of_load load_noStores, Option.getD_none, hnone]
  exact hlooksUp.isRead _ hrun

end RecordQuery
