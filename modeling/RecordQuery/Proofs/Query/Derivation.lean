import RecordQuery.Proofs.Query.Acceptance

/-!
# What is read is a query

The way back from the outcome to the text: where reading on ends well, the text ahead starts with a piece of the grammar. For
each piece the first stop ahead decides which rule applies, every other continuation ends in an error, and the rule read
forwards says what is left to read. Field groups are found by induction on the length of the text ahead (`Phase.exists_body`).
-/

namespace RecordQuery

open Text Grammar

/-- A text starts with the entries of a field group within others and the right brace behind them, and the groups are nested
as deep as allowed. -/
def BodyAhead (limit depth : Nat) (ahead : List Char) : Prop :=
  ∃ body es n rest, ahead = body ++ '}' :: rest ∧ Body body es n ∧ depth + n ≤ limit

namespace BodyAhead

variable {limit depth : Nat} {name rest : List Char}

/-- The right brace ends a field group without more entries. -/
theorem rightBrace (h : depth < limit) : BodyAhead limit depth ('}' :: rest) := ⟨[], [], 1, rest, rfl, .done, h⟩

theorem comma (h : BodyAhead limit depth rest) : BodyAhead limit depth (',' :: rest) := by
  obtain ⟨body, es, n, rest, rfl, hb, hn⟩ := h
  exact ⟨',' :: body, es, n, rest, rfl, .comma hb, hn⟩

theorem blanks {blanks : List Char} (h : BodyAhead limit depth rest) (hb : Blank blanks) :
    BodyAhead limit depth (blanks ++ rest) := by
  obtain ⟨body, es, n, rest, rfl, hbody, hn⟩ := h
  exact ⟨blanks ++ body, es, n, rest, (List.append_assoc _ _ _).symm, .blanks hb hbody, hn⟩

/-- A name may be the last entry. -/
theorem leaf_rightBrace (hf : FieldName name) (h : depth < limit) : BodyAhead limit depth (name ++ '}' :: rest) := by
  have hbody : Body (name ++ []) _ 1 := .leaf hf (.inl rfl) .done
  exact ⟨name ++ [], _, 1, rest, by rw [List.append_nil], hbody, h⟩

theorem leaf_comma (h : BodyAhead limit depth rest) (hf : FieldName name) :
    BodyAhead limit depth (name ++ ',' :: rest) := by
  obtain ⟨body, es, n, rest, rfl, hb, hn⟩ := h
  exact ⟨name ++ ',' :: body, _, n, rest, by rw [List.append_assoc, List.cons_append], .leaf hf (.inr rfl) (.comma hb), hn⟩

/-- A nested field group may stand in front of other entries, if it is nested no deeper than allowed. -/
theorem group {text inner : List Char} {owner : Head} {is : List Selection} {k : Nat} (h : BodyAhead limit depth rest)
    (ho : FieldHead text owner) (hi : Body inner is k) (hk : depth + 1 + k ≤ limit) :
    BodyAhead limit depth (text ++ '{' :: (inner ++ '}' :: rest)) := by
  obtain ⟨body, es, n, rest, rfl, hb, hn⟩ := h
  refine ⟨text ++ '{' :: (inner ++ '}' :: body), _, _, rest, ?_, .group ho hi hb, ?_⟩
  · simp only [List.append_assoc, List.cons_append]
  · omega

end BodyAhead

/-- What may end a name in a field group: the end of a plain field, or what may stand behind the name of another. -/
theorem fieldStops_cases {c : Char} (h : c ∈ fieldStops) : c = ',' ∨ c = '}' ∨ (c = '{' ∨ c = '.' ∨ c = '(') := by
  simp only [fieldStops, List.mem_cons, List.not_mem_nil, or_false] at h
  tauto

namespace Phase

variable {limit : Nat} {stage : Stage} {b : Bool} {head : OpenHead} {groups : List OpenGroup} {before ahead rest : List Char}
  {t : Selection}

/-! ## Arguments and calls -/

/-- Where an argument is read well, it is closed. -/
theorem exists_argument {slot : ArgumentSlot}
    (h : outcome limit ⟨.argument slot head groups, .argument, b⟩ before ahead = .ok t) :
    ∃ text rest, ahead = text ++ ')' :: rest ∧ Avoids argumentStops text := by
  rcases avoids_or_split argumentStops ahead with ha | ⟨text, c, rest, rfl, ht, hc⟩
  · have hstop : Stop ⟨.argument, b, before, ahead ++ []⟩ _ := .argument ha fun _ hc => nomatch hc
    rw [List.append_nil] at hstop
    exact absurd h (not_ok_of_error (Stage.outcome_of_fault hstop))
  · rcases List.mem_pair.mp hc with rfl | rfl
    · exact ⟨text, rest, rfl, ht⟩
    · have hstop : Stop ⟨.argument, b, before, text ++ '\n' :: rest⟩ _ := .argument ht fun _ hc => (Option.some.inj hc).symm
      exact absurd h (not_ok_of_error (Stage.outcome_of_fault hstop))

/-- Where the name of a call is read well, it is one and stands in front of a parenthesis. -/
theorem exists_callName (h : outcome limit ⟨.callName head groups, .functionName, b⟩ before ahead = .ok t) :
    ∃ name rest, ahead = name ++ '(' :: rest ∧ CallName name := by
  rcases avoids_or_split callStops ahead with ha | ⟨name, c, rest, rfl, hn, hc⟩
  · exact absurd h (not_ok_of_error (Stage.outcome_of_fault (.functionName ha)))
  · cases List.mem_singleton.mp hc
    refine ⟨name, rest, rfl, hn, fun hb => ?_⟩
    have hmove := @Move.functionName b before name rest hn
    rw [Token.trimmed?_of_blank _ _ hb] at hmove
    have herror : Stage.outcome limit (.callName head groups) ⟨.leftParen, b, before ++ name, '(' :: rest⟩ = _ :=
      Stage.outcome_of_failed .leftParen rfl
    exact absurd h (not_ok_of_error ((Stage.outcome_of_silent hmove).trans herror))

/-- Where a call is read well behind its dot, it is one. -/
theorem exists_call (h : outcome limit ⟨.callName head groups, .functionName, b⟩ before ahead = .ok t) :
    ∃ name argument rest, ahead = name ++ '(' :: (argument ++ ')' :: rest) ∧ CallName name ∧
      Avoids argumentStops argument := by
  obtain ⟨name, rest, rfl, hn⟩ := exists_callName h
  have hname := @reads_callName limit b head groups rest name hn before
  rw [List.append_assoc, List.singleton_append, h] at hname
  obtain ⟨argument, rest', rfl, ha⟩ := exists_argument hname.symm
  exact ⟨name, argument, rest', rfl, hn, ha⟩

/-- Behind an argument the end of the input is an error. -/
theorem outcome_resume_of_nil : ∃ e, outcome limit ⟨.resume head groups, .leftBrace, b⟩ before [] = .error e := by
  cases b with
  | false =>
    rw [outcome, Stage.outcome_of_stop .unopened]
    cases groups with
    | nil => exact ⟨_, rfl⟩
    | cons group outer => exact ⟨_, rfl⟩
  | true => exact ⟨_, Stage.outcome_of_fault .unclosed⟩

/-- Where reading goes on well behind an argument, calls and layout lead to a left brace. -/
theorem exists_calls (hs : stage.Takes limit .rightParen (.resume head groups))
    (h : outcome limit ⟨stage, .rightParen, b⟩ before (')' :: ahead) = .ok t) :
    ∃ texts cs layout rest, ahead = texts ++ (layout ++ '{' :: rest) ∧ CallsText texts cs ∧ Layout layout := by
  induction hlen : ahead.length using Nat.strongRecOn generalizing stage head before ahead with
  | _ len ih =>
    obtain ⟨layout, rest, rfl, hl, hr⟩ := exists_layout_split ahead
    have hparen := (@reads_rightParen limit stage _ b rest layout hs hl hr before).symm.trans h
    by_cases hd : rest.head? = some '.'
    · -- a call, which ends as an argument does, in front of a shorter text
      obtain ⟨rest, rfl⟩ := List.head?_eq_some_iff.mp hd
      obtain ⟨groups', hg, hdot⟩ := @Stage.takes_resume_dot limit head groups
      have hname := (reads_dot hdot (before ++ ')' :: layout)).symm.trans hparen
      obtain ⟨name, argument, rest, rfl, hn, ha⟩ := exists_call hname
      obtain ⟨s, hclose, hcall⟩ := @reads_call limit _ b head groups rest name argument groups' hn ha hg hdot
      have htext : '.' :: (name ++ '(' :: (argument ++ ')' :: rest)) =
          '.' :: (name ++ '(' :: argument) ++ ')' :: rest := by
        simp only [List.append_assoc, List.cons_append]
      rw [htext] at hparen
      have hlt : rest.length < len := by
        rw [← hlen]
        simp only [List.length_append, List.length_cons]
        omega
      obtain ⟨texts, cs, layout', rest, rfl, hc, hl'⟩ := ih _ hlt hclose ((hcall _).symm.trans hparen) rfl
      refine ⟨layout ++ ('.' :: (name ++ '(' :: (argument ++ [')'])) ++ texts), _, layout', rest, ?_,
        .cons hl (.intro hn ha) hc, hl'⟩
      simp only [List.append_assoc, List.cons_append, List.nil_append]
    · rw [Scanner.Mode.afterParen, if_neg hd] at hparen
      rcases rest with _ | ⟨c, rest⟩
      · obtain ⟨e, he⟩ := @outcome_resume_of_nil limit b head groups (before ++ ')' :: layout)
        exact absurd hparen (not_ok_of_error he)
      · by_cases hc : c = '{'
        · subst hc
          exact ⟨[], [], layout, rest, rfl, .nil, hl⟩
        · exact absurd hparen (not_ok_of_error (Stage.outcome_of_fault (.openBrace hc)))

/-! ## What stands before a field group -/

/-- Where a qualifier that starts with a parenthesis is read well, it is one and stands in front of a left brace. -/
theorem exists_qualifier_argument {name : String} (hs : stage.Takes limit .leftParen (.argument .own { name } groups))
    (h : outcome limit ⟨stage, .leftParen, b⟩ before ('(' :: ahead) = .ok t) :
    ∃ text argument calls rest, '(' :: ahead = text ++ '{' :: rest ∧ Qualifier text argument calls ∧
      outcome limit ⟨.resume (OpenHead.addCalls ⟨name, argument, []⟩ calls) groups, .leftBrace, b⟩ (before ++ text)
        ('{' :: rest) = .ok t := by
  obtain ⟨argument, rest, rfl, ha⟩ := exists_argument ((reads_leftParen hs before).symm.trans h)
  obtain ⟨s, hclose, hread⟩ := @reads_argument limit b { name } groups rest argument ha .own
  have hparen := ((reads_leftParen hs).trans hread before).symm.trans h
  obtain ⟨texts, calls, layout, rest, rfl, hc, hl⟩ := exists_calls hclose hparen
  have htext : '(' :: (argument ++ ')' :: (texts ++ (layout ++ '{' :: rest))) =
      '(' :: (argument ++ ')' :: (texts ++ layout)) ++ '{' :: rest := by
    simp only [List.append_assoc, List.cons_append]
  rw [htext] at h ⊢
  exact ⟨_, _, _, rest, rfl, .argument ha hc hl, (reads_qualifier_argument ha hc hl hs before).symm.trans h⟩

/-- Where a qualifier that starts with a dot is read well, it is one and stands in front of a left brace. -/
theorem exists_qualifier_call {name : String} {groups' : List OpenGroup}
    (hg : ∀ h, Stage.resume h groups' = Stage.resume h groups) (hs : stage.Takes limit .dot (.callName { name } groups'))
    (h : outcome limit ⟨stage, .dot, b⟩ before ('.' :: ahead) = .ok t) :
    ∃ text argument calls rest, '.' :: ahead = text ++ '{' :: rest ∧ Qualifier text argument calls ∧
      outcome limit ⟨.resume (OpenHead.addCalls ⟨name, argument, []⟩ calls) groups, .leftBrace, b⟩ (before ++ text)
        ('{' :: rest) = .ok t := by
  obtain ⟨word, argument, rest, rfl, hn, ha⟩ := exists_call ((reads_dot hs before).symm.trans h)
  obtain ⟨s, hclose, hread⟩ := @reads_call limit stage b { name } groups rest word argument groups' hn ha hg hs
  have htext : '.' :: (word ++ '(' :: (argument ++ ')' :: rest)) = '.' :: (word ++ '(' :: argument) ++ ')' :: rest := by
    simp only [List.append_assoc, List.cons_append]
  rw [htext] at h
  obtain ⟨texts, calls, layout, rest, rfl, hc, hl⟩ := exists_calls hclose ((hread before).symm.trans h)
  have htext' : '.' :: (word ++ '(' :: argument) ++ ')' :: (texts ++ (layout ++ '{' :: rest)) =
      '.' :: (word ++ '(' :: (argument ++ [')'])) ++ (texts ++ layout) ++ '{' :: rest := by
    simp only [List.append_assoc, List.cons_append, List.nil_append]
  rw [htext'] at h
  rw [htext, htext']
  have hcall : CallText _ _ := .intro hn ha
  exact ⟨_, none, _, rest, rfl, .call hcall hc hl, (reads_qualifier_call hcall hc hl hg hs before).symm.trans h⟩

/-- Where reading goes on well in front of a left brace, one more field group may be opened. -/
theorem exists_braces (h : outcome limit ⟨.resume head groups, .leftBrace, b⟩ before ('{' :: ahead) = .ok t) :
    groups.length < limit ∧ ∃ groups' : List OpenGroup, groups'.length = groups.length ∧
      outcome limit ⟨.fields (.start head.close) groups', .fields, true⟩ (before ++ ['{']) ahead = .ok t := by
  by_cases hlt : groups.length < limit
  · obtain ⟨groups', hlen, _, hbrace⟩ := @Stage.takes_resume_leftBrace limit head groups hlt
    exact ⟨hlt, groups', hlen, (reads_leftBrace hbrace before).symm.trans h⟩
  · obtain ⟨layout, rest, rfl, hl, hr⟩ := exists_layout_split ahead
    have herror := Stage.read_resume_leftBrace_tooDeep head hlt (t := .cut .leftBrace before ['{']) rfl
    exact absurd h (not_ok_of_error (Stage.outcome_of_failed (.leftBrace hl hr) herror))

/-! ## Field groups -/

variable {group : OpenGroup} {outer : List OpenGroup}

/-- In a field group a left brace or a dot calls for a field in front of it, and a left parenthesis for its name. -/
theorem outcome_fields_of_detached {c : Char} (hg : group.current = none) (hc : c = '{' ∨ c = '.' ∨ c = '(') :
    ∃ e, outcome limit ⟨.fields group outer, .fields, b⟩ before (c :: rest) = .error e := by
  rcases hc with rfl | rfl | rfl
  · obtain ⟨layout, rest, rfl, hl, hr⟩ := exists_layout_split rest
    have hread : (Stage.fields group outer).read limit (.cut .leftBrace before ['{']) =
        .failed (.detached .leftBrace (byteLength before)) := by
      simp only [Stage.read, Stage.readToken, Stage.readField, Token.cut_kind, hg]
      rfl
    rw [outcome_mark (by decide) (by decide)]
    exact ⟨_, Stage.outcome_of_failed (.leftBrace hl hr) hread⟩
  · have hread : (Stage.fields group outer).read limit (.cut .dot before ['.']) =
        .failed (.detached .dot (byteLength before)) := by
      simp only [Stage.read, Stage.readToken, Stage.readField, Token.cut_kind, hg]
      rfl
    rw [outcome_mark (by decide) (by decide)]
    exact ⟨_, Stage.outcome_of_failed .dot hread⟩
  · rw [outcome_paren]
    exact ⟨_, Stage.outcome_of_failed .leftParen rfl⟩

/-- Where a name and what follows it are read well, they lead to a left brace, unless a comma or a right brace follows. -/
theorem exists_fieldHead {name : List Char} {c : Char} (hn : FieldName name) (hc : c = '{' ∨ c = '.' ∨ c = '(')
    (h : outcome limit ⟨.fields group outer, .fields, b⟩ before (name ++ c :: ahead) = .ok t) :
    ∃ text head rest, name ++ c :: ahead = text ++ '{' :: rest ∧ FieldHead text head.close ∧
      outcome limit ⟨.resume head (group.settle :: outer), .leftBrace, b⟩ (before ++ text) ('{' :: rest) = .ok t := by
  rcases hc with rfl | rfl | rfl
  · have hname := (reads_fieldName (c := '{') hn (by decide) (by decide) before).symm.trans h
    exact ⟨name, { name := wordOf name }, ahead, rfl, .bare hn, hname⟩
  · obtain ⟨groups', hg, hdot⟩ := @Stage.takes_resume_dot limit { name := wordOf name } (group.settle :: outer)
    have hname := (reads_fieldName (c := '.') hn (by decide) (by decide) before).symm.trans h
    obtain ⟨text, argument, calls, rest, htext, hq, hread⟩ := exists_qualifier_call hg hdot hname
    rw [List.append_assoc] at hread
    refine ⟨name ++ text, _, rest, ?_, ?_, hread⟩
    · rw [htext, List.append_assoc]
    · rw [OpenHead.close_addCalls]
      exact .qualified hn hq
  · have hname := (reads_fieldFunction hn before).symm.trans h
    obtain ⟨text, argument, calls, rest, htext, hq, hread⟩ := exists_qualifier_argument (Stage.takes_leftParen _ _ _) hname
    rw [List.append_assoc] at hread
    refine ⟨name ++ text, _, rest, ?_, ?_, hread⟩
    · rw [htext, List.append_assoc]
    · rw [OpenHead.close_addCalls]
      exact .qualified hn hq

/-- Where reading goes on well behind a nested field group, it goes on in the group around it. -/
theorem exists_group_of_nested {inner : List Char} {is : List Selection} {k : Nat} (hi : Body inner is k)
    (hk : outer.length + 1 + k ≤ limit)
    (h : outcome limit ⟨.resume head (group :: outer), .leftBrace, b⟩ before ('{' :: (inner ++ '}' :: rest)) = .ok t) :
    ∃ group' : OpenGroup, group'.current = none ∧
      outcome limit ⟨.fields group' outer, .fields, true⟩ (before ++ '{' :: (inner ++ ['}'])) rest = .ok t := by
  have hlt : (group :: outer).length < limit := by
    have hone := hi.one_le
    rw [List.length_cons]
    omega
  have hbraces := @reads_braces limit b head (group :: outer) rest inner is hlt
    fun groups' hlen => reads_body hi rfl (by rw [hlen, List.length_cons]; exact hk)
  have htext : '{' :: (inner ++ '}' :: rest) = '{' :: (inner ++ ['}']) ++ rest := by
    simp only [List.append_assoc, List.cons_append, List.nil_append]
  rw [htext, hbraces, Stage.leaveGroup] at h
  refine ⟨(group.put ((OpenGroup.start head.close).putAll is).close).leave, rfl, ?_⟩
  by_cases hr : Blank rest
  · rw [afterBrace_of_blank hr] at h
    exact absurd h (not_ok_of_error (Stage.outcome_of_stop .ending))
  · rwa [afterBrace_of_not_blank hr] at h

/-- Where the entries of a field group are read well, they are entries in front of a right brace, nested as deep as allowed. -/
theorem bodyAhead_of_ok (hg : group.current = none) (hlt : outer.length < limit)
    (h : outcome limit ⟨.fields group outer, .fields, true⟩ before ahead = .ok t) : BodyAhead limit outer.length ahead := by
  induction hlen : ahead.length using Nat.strongRecOn generalizing group outer before ahead with
  | _ len ih =>
    rcases avoids_or_split fieldStops ahead with ha | ⟨name, c, rest, rfl, ha, hc⟩
    · exact absurd h (not_ok_of_error (Stage.outcome_of_fault (.fields ha)))
    have hshort : rest.length < len := by
      rw [← hlen, List.length_append, List.length_cons]
      omega
    have hcomma {g : OpenGroup} {front : List Char} (hg : g.current = none)
        (h : outcome limit ⟨.fields g outer, .fields, true⟩ front (',' :: rest) = .ok t) :
        BodyAhead limit outer.length rest :=
      ih _ hshort hg hlt ((reads_fields_comma hg front).symm.trans h) rfl
    by_cases hb : Blank name
    · have hblank := (reads_blank hb before).symm.trans h
      rcases fieldStops_cases hc with rfl | rfl | hc
      · exact (hcomma hg hblank).comma.blanks hb
      · exact (BodyAhead.rightBrace hlt).blanks hb
      · obtain ⟨e, he⟩ := @outcome_fields_of_detached limit true (before ++ name) rest group outer c hg hc
        exact absurd hblank (not_ok_of_error he)
    · have hn : FieldName name := ⟨ha, hb⟩
      rcases fieldStops_cases hc with rfl | rfl | hc
      · have hleaf := (reads_leaf hn (.inl rfl) hg before).symm.trans h
        exact (hcomma (g := group.put _) hg hleaf).leaf_comma hn
      · exact .leaf_rightBrace hn hlt
      · -- what stands within the nested group and what stands behind it are both shorter than the text ahead
        obtain ⟨text, head, rest', htext, hhead, hread⟩ := exists_fieldHead hn hc h
        have hshort' : rest'.length < len := by
          have hl := congrArg List.length htext
          rw [hlen, List.length_append, List.length_cons] at hl
          omega
        obtain ⟨hlt', groups', hlen', hinner⟩ := exists_braces hread
        obtain ⟨inner, is, k, rest, rfl, hi, hk⟩ := ih _ hshort' rfl (hlen' ▸ hlt') hinner rfl
        rw [hlen', List.length_cons] at hk
        obtain ⟨group', hg', hrest⟩ := exists_group_of_nested hi hk hread
        have hshort'' : rest.length < len := by
          rw [List.length_append, List.length_cons] at hshort'
          omega
        rw [htext]
        exact (ih _ hshort'' hg' hlt hrest rfl).group hhead hi hk

/-! ## Queries -/

/-- Where a query is read well, it starts with a name and a qualifier in front of a left brace. -/
theorem exists_rootHead (h : outcome limit ⟨.start, .objectName, b⟩ before ahead = .ok t) :
    ∃ name text argument calls rest, ahead = name ++ (text ++ '{' :: rest) ∧ RootName name ∧ Qualifier text argument calls ∧
      outcome limit ⟨.resume (OpenHead.addCalls ⟨String.ofList name, argument, []⟩ calls) [], .leftBrace, b⟩
        (before ++ name ++ text) ('{' :: rest) = .ok t := by
  rcases avoids_or_split nameStops ahead with ha | ⟨name, c, rest, rfl, ha, hc⟩
  · exact absurd h (not_ok_of_error (Stage.outcome_of_stop (.objectName ha)))
  by_cases hne : name = []
  · -- the first token is the mark, which is no name
    subst hne
    have hmove := @Move.objectName b before [] rest c ha hc
    have hmark := (Stage.outcome_of_silent hmove).symm.trans h
    rcases List.mem_pair.mp hc with rfl | rfl
    · exact absurd hmark (not_ok_of_error (Stage.outcome_of_failed .leftParen rfl))
    · exact absurd hmark (not_ok_of_error (Stage.outcome_of_failed .dot rfl))
  · have hn : RootName name := ⟨hne, ha⟩
    have hname := (reads_rootName hn hc before).symm.trans h
    rcases List.mem_pair.mp hc with rfl | rfl
    · obtain ⟨text, argument, calls, rest, htext, hq, hread⟩ :=
        exists_qualifier_argument (Stage.takes_named_leftParen { name := String.ofList name }) hname
      exact ⟨name, text, argument, calls, rest, by rw [htext], hn, hq, hread⟩
    · have hg (h : OpenHead) : Stage.resume h [] = Stage.resume h [] := rfl
      obtain ⟨text, argument, calls, rest, htext, hq, hread⟩ :=
        exists_qualifier_call hg (Stage.takes_named_dot { name := String.ofList name }) hname
      exact ⟨name, text, argument, calls, rest, by rw [htext], hn, hq, hread⟩

end Phase

/-- What is read is a query, with its field groups nested as deep as allowed. -/
theorem Selection.query_of_parse {query : String} {t : Selection} {limit : Nat} (h : Selection.parse query limit = .ok t) :
    ∃ n ≤ limit, Query query.toList t n := by
  have hstart : Phase.outcome limit ⟨.start, .objectName, false⟩ [] query.toList = .ok t := h
  obtain ⟨name, text, argument, calls, rest, htext, hn, hq, hread⟩ := Phase.exists_rootHead hstart
  obtain ⟨hlt, groups, hlen, hinner⟩ := Phase.exists_braces hread
  obtain ⟨body, es, n, trailing, rfl, hb, hdepth⟩ := Phase.bodyAhead_of_ok rfl (hlen ▸ hlt) hinner
  have hl : n ≤ limit := by
    rwa [hlen, List.length_nil, Nat.zero_add] at hdepth
  have hparse := Selection.parse_of_braces hn hq hb hl htext
  rw [h] at hparse
  by_cases ht : Blank trailing
  · rw [Phase.outcome_complete_of_blank ht] at hparse
    cases hparse
    rw [htext]
    exact ⟨n, hl, .intro hn hq hb ht⟩
  · obtain ⟨e, he, _⟩ := Phase.outcome_complete_of_not_blank ht _
    exact absurd hparse.symm (not_ok_of_error he)

/-- Reading succeeds exactly on the queries in which no more field groups than allowed are nested in each other, and gives what
they denote. -/
theorem Selection.parse_eq_ok_iff (query : String) (limit : Nat) (t : Selection) :
    Selection.parse query limit = .ok t ↔ ∃ n ≤ limit, Query query.toList t n := by
  constructor
  · intro h
    exact Selection.query_of_parse h
  · rintro ⟨n, hn, hq⟩
    exact Selection.parse_of_query hq hn

example : Selection.parse "a(1) \x7b b ,, c.d() \x7b\x7d b\x7bc\x7d \x7d\n" 2 =
    .ok (.group ⟨"a", some "1", []⟩
      [.group ⟨"b", none, []⟩ [.leaf ⟨"c", none, []⟩], .group ⟨"c", none, [⟨"d", none⟩]⟩ []]) := by decide +kernel

end RecordQuery
