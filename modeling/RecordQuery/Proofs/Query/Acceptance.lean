import RecordQuery.Proofs.Selection.Pieces

/-!
# Every derivation is read

A text with a derivation leads the reader to what it denotes, whatever follows it: by induction on calls, then on the entries of
a field group with the nested groups inside (`reads_body`), and so for a whole query up to its last brace (`reads_query`).
-/

namespace RecordQuery

open Text Grammar

/-- A head with further calls behind its own. -/
def OpenHead.addCalls (h : OpenHead) (cs : List Call) : OpenHead := { h with calls := cs.reverse ++ h.calls }

/-- Calls are added to a head one by one. -/
theorem OpenHead.addCalls_cons (h : OpenHead) (c : Call) (cs : List Call) :
    h.addCalls (c :: cs) = (h.addCalls [c]).addCalls cs := by
  simp only [addCalls, List.reverse_cons, List.reverse_nil, List.nil_append, List.append_assoc, List.singleton_append]

/-- A head that is completed has the calls that were added, in their order. -/
theorem OpenHead.close_addCalls (name : String) (argument : Option String) (cs : List Call) :
    (OpenHead.addCalls ⟨name, argument, []⟩ cs).close = ⟨name, argument, cs⟩ := by
  simp only [close, addCalls, List.append_nil, List.reverse_reverse]

/-- Puts fields into a group, one after the other. -/
def OpenGroup.putAll (g : OpenGroup) (es : List Selection) : OpenGroup := es.foldl (fun g e => (g.put e).leave) g

/-- The error of a query that goes on behind its last brace: a fault of the scan, or a token instead of the end of the input. -/
def ParseError.IsTrailing : ParseError → Prop
  | .scan _ _ => True
  | .unexpected .endOfInput _ _ _ => True
  | _ => False

namespace OpenGroup

@[simp] theorem putAll_cons (g : OpenGroup) (e : Selection) (es : List Selection) :
    g.putAll (e :: es) = (g.put e).leave.putAll es := rfl

/-- A group into which entries are put has the fields that they stand for. -/
theorem putAll_start (owner : Head) (es : List Selection) : (start owner).putAll es = ⟨owner, fieldsOf es, none⟩ := by
  have h (fields : List Selection) : OpenGroup.putAll ⟨owner, fields, none⟩ es =
      ⟨owner, es.foldl (fun fields e => Keyed.insert Selection.name e fields) fields, none⟩ := by
    induction es generalizing fields with
    | nil => rfl
    | cons e es ih => exact ih _
  exact h []

/-- A group closes to the fields that its entries stand for. -/
theorem close_putAll_start (owner : Head) (es : List Selection) :
    ((start owner).putAll es).close = .group owner (fieldsOf es) := by
  rw [putAll_start]
  rfl

end OpenGroup

namespace Phase

variable {limit : Nat} {stage : Stage} {b : Bool} {head : OpenHead} {groups : List OpenGroup} {rest : List Char}

/-- A call up to its right parenthesis, which completes it. -/
theorem reads_call {name argument : List Char} {groups' : List OpenGroup} (hn : CallName name)
    (ha : Avoids argumentStops argument) (hg : ∀ h, Stage.resume h groups' = Stage.resume h groups)
    (hs : stage.Takes limit .dot (.callName head groups')) :
    ∃ s : Stage, s.Takes limit .rightParen (.resume (head.addCalls [⟨wordOf name, argumentOf argument⟩]) groups) ∧
      Reads limit ⟨stage, .dot, b⟩ ('.' :: (name ++ '(' :: argument)) ⟨s, .rightParen, b⟩ (')' :: rest) := by
  obtain ⟨s, hclose, hread⟩ := @reads_argument limit b head groups' rest argument ha (.call (wordOf name))
  rw [hg] at hclose
  refine ⟨s, hclose, ?_⟩
  have h := (reads_dot hs).trans ((reads_callName hn).trans hread)
  rw [List.append_assoc] at h
  exact h

/-- Behind a completed argument, calls and layout lead to the left brace. -/
theorem reads_calls {texts layout : List Char} {cs : List Call} (hc : CallsText texts cs) (hl : Layout layout)
    (hs : stage.Takes limit .rightParen (.resume head groups)) :
    Reads limit ⟨stage, .rightParen, b⟩ (')' :: (texts ++ layout)) ⟨.resume (head.addCalls cs) groups, .leftBrace, b⟩
      ('{' :: rest) := by
  induction hc generalizing stage head with
  | nil => exact reads_rightParen hs hl (startsSolid_cons.mpr rfl)
  | @cons skipped text texts c cs hk h _ ih =>
    obtain @⟨name, argument, hn, ha⟩ := h
    obtain ⟨groups', hg, hdot⟩ := @Stage.takes_resume_dot limit head groups
    obtain ⟨s, hclose, hread⟩ := @reads_call limit _ b head groups (texts ++ layout ++ '{' :: rest) name argument groups'
      hn ha hg hdot
    have hskip : Reads limit ⟨stage, .rightParen, b⟩ (')' :: skipped) ⟨.resume head groups, .dot, b⟩
        ('.' :: (name ++ '(' :: argument) ++ (')' :: (texts ++ layout)) ++ '{' :: rest) :=
      reads_rightParen hs hk (startsSolid_cons.mpr rfl)
    have htext : ')' :: (skipped ++ ('.' :: (name ++ '(' :: (argument ++ [')'])) ++ texts) ++ layout) =
        ')' :: skipped ++ ('.' :: (name ++ '(' :: argument) ++ ')' :: (texts ++ layout)) := by
      simp only [List.append_assoc, List.cons_append, List.nil_append]
    rw [htext, OpenHead.addCalls_cons]
    exact hskip.trans (hread.trans (ih hclose))

/-- A qualifier that starts with an argument. -/
theorem reads_qualifier_argument {argument texts layout : List Char} {cs : List Call}
    (ha : Avoids argumentStops argument) (hc : CallsText texts cs) (hl : Layout layout) {name : String}
    (hs : stage.Takes limit .leftParen (.argument .own { name } groups)) :
    Reads limit ⟨stage, .leftParen, b⟩ ('(' :: (argument ++ ')' :: (texts ++ layout)))
      ⟨.resume (OpenHead.addCalls ⟨name, argumentOf argument, []⟩ cs) groups, .leftBrace, b⟩ ('{' :: rest) := by
  obtain ⟨s, hclose, hread⟩ := @reads_argument limit b { name } groups (texts ++ layout ++ '{' :: rest) argument ha .own
  exact (reads_leftParen hs).trans (hread.trans (reads_calls hc hl hclose))

/-- A qualifier that starts with a call. -/
theorem reads_qualifier_call {text texts layout : List Char} {c : Call} {cs : List Call} (h : CallText text c)
    (hc : CallsText texts cs) (hl : Layout layout) {groups' : List OpenGroup}
    (hg : ∀ h, Stage.resume h groups' = Stage.resume h groups) (hs : stage.Takes limit .dot (.callName head groups')) :
    Reads limit ⟨stage, .dot, b⟩ (text ++ (texts ++ layout))
      ⟨.resume (head.addCalls (c :: cs)) groups, .leftBrace, b⟩ ('{' :: rest) := by
  obtain @⟨name, argument, hn, ha⟩ := h
  obtain ⟨s, hclose, hread⟩ := @reads_call limit stage b head groups (texts ++ layout ++ '{' :: rest) name argument groups'
    hn ha hg hs
  have htext : '.' :: (name ++ '(' :: (argument ++ [')'])) ++ (texts ++ layout) =
      '.' :: (name ++ '(' :: argument) ++ ')' :: (texts ++ layout) := by
    simp only [List.append_assoc, List.cons_append, List.nil_append]
  rw [htext, OpenHead.addCalls_cons]
  exact hread.trans (reads_calls hc hl hclose)

/-- The head of a nested field group up to its left brace. -/
theorem reads_fieldHead {text : List Char} {owner : Head} {group : OpenGroup} {outer : List OpenGroup}
    (h : FieldHead text owner) :
    ∃ head : OpenHead, head.close = owner ∧
      Reads limit ⟨.fields group outer, .fields, b⟩ text ⟨.resume head (group.settle :: outer), .leftBrace, b⟩
        ('{' :: rest) := by
  cases h with
  | bare hn =>
    exact ⟨{ name := wordOf text }, rfl, reads_fieldName (c := '{') hn (by decide) (by decide)⟩
  | @qualified name text argument calls hn hq =>
    refine ⟨OpenHead.addCalls ⟨wordOf name, argument, []⟩ calls, OpenHead.close_addCalls _ _ _, ?_⟩
    cases hq with
    | argument ha hc hl =>
      exact (reads_fieldFunction hn).trans (reads_qualifier_argument ha hc hl (Stage.takes_leftParen _ _ _))
    | @call text texts layout c cs h hc hl =>
      obtain ⟨groups', hg, hdot⟩ := @Stage.takes_resume_dot limit { name := wordOf name } (group.settle :: outer)
      have hcall := @reads_qualifier_call limit _ b { name := wordOf name } (group.settle :: outer) rest _ _ _ _ _ h hc hl
        groups' hg hdot
      obtain ⟨hn', ha⟩ := h
      exact (reads_fieldName (c := '.') hn (by decide) (by decide)).trans hcall

/-- The braces of a head with what stands between them, which is read with the same number of groups around it. -/
theorem reads_braces {inner : List Char} {is : List Selection} (hlt : groups.length < limit)
    (hi : ∀ groups' : List OpenGroup, groups'.length = groups.length →
      Reads limit ⟨.fields (.start head.close) groups', .fields, true⟩ (inner ++ ['}'])
        ⟨Stage.leaveGroup ((OpenGroup.start head.close).putAll is) groups', .afterBrace rest, true⟩ rest) :
    Reads limit ⟨.resume head groups, .leftBrace, b⟩ ('{' :: (inner ++ ['}']))
      ⟨Stage.leaveGroup ((OpenGroup.start head.close).putAll is) groups, .afterBrace rest, true⟩ rest := by
  obtain ⟨groups', hlen, hleave, hbrace⟩ := @Stage.takes_resume_leftBrace limit head groups hlt
  have hinner := hi groups' hlen
  rw [hleave] at hinner
  exact (reads_leftBrace hbrace).trans hinner

/-- A plain field in front of a comma or of the end of its group. -/
theorem reads_entry_leaf {name text : List Char} {group : OpenGroup} {outer : List OpenGroup} (hn : FieldName name)
    (he : text = [] ∨ text.head? = some ',') (hg : group.current = none) :
    Reads limit ⟨.fields group outer, .fields, b⟩ name
      ⟨.fields (group.put (.leaf ⟨wordOf name, none, []⟩)) outer, .fields, b⟩ (text ++ '}' :: rest) := by
  rcases he with rfl | he
  · exact reads_leaf hn (.inr rfl) hg
  · obtain ⟨text', rfl⟩ := List.head?_eq_some_iff.mp he
    exact reads_leaf hn (.inl rfl) hg

/-- A field group up to its right brace: its entries are put into the group, and the reader leaves it. -/
theorem reads_body {text : List Char} {es : List Selection} {n : Nat} (h : Body text es n) {group : OpenGroup}
    {outer : List OpenGroup} (hg : group.current = none) (hn : outer.length + n ≤ limit) :
    Reads limit ⟨.fields group outer, .fields, true⟩ (text ++ ['}'])
      ⟨Stage.leaveGroup (group.putAll es) outer, .afterBrace rest, true⟩ rest := by
  induction h generalizing group outer rest with
  | done => exact Reads.of_mark (by decide) (by decide) (reads_rightBrace (Stage.takes_fields_rightBrace group outer))
  | comma _ ih => exact (reads_fields_comma hg).trans (ih hg hn)
  | @blanks blanks text es n hb _ ih =>
    rw [List.append_assoc]
    exact (reads_blank hb).trans (ih hg hn)
  | @leaf name text es n hf he _ ih =>
    have hput : (group.put (.leaf ⟨wordOf name, none, []⟩)).current = none := hg
    have hleaf := @reads_entry_leaf limit true rest name text group outer hf he hg
    have htext : text ++ '}' :: rest = text ++ ['}'] ++ rest := List.append_cons _ _ _
    rw [htext] at hleaf
    rw [List.append_assoc, OpenGroup.putAll_cons, OpenGroup.leave_of_current_none hput]
    exact hleaf.trans (ih hput hn)
  | @group text inner texts owner is es k n ho hi _ ihi ih =>
    have hk := hi.one_le
    obtain ⟨head, rfl, hhead⟩ := @reads_fieldHead limit true (inner ++ ['}'] ++ (texts ++ ['}']) ++ rest) text owner group
      outer ho
    rw [OpenGroup.settle_of_current_none hg] at hhead
    have hlt : (group :: outer).length < limit := by
      rw [List.length_cons]
      omega
    have hbraces := @reads_braces limit true head (group :: outer) (texts ++ ['}'] ++ rest) inner is hlt
      fun groups' hlen => @ihi _ _ groups' rfl (by rw [hlen, List.length_cons]; omega)
    -- the outer group is still open, so its right brace is yet to come
    have hrest : ¬Blank (texts ++ ['}'] ++ rest) := fun hb => absurd (hb '}' (by simp)) (by decide)
    rw [Stage.leaveGroup, OpenGroup.close_putAll_start, afterBrace_of_not_blank hrest] at hbraces
    have htext : text ++ '{' :: (inner ++ '}' :: texts) ++ ['}'] =
        text ++ ('{' :: (inner ++ ['}']) ++ (texts ++ ['}'])) := by
      simp only [List.append_assoc, List.cons_append, List.nil_append]
    rw [htext, OpenGroup.putAll_cons]
    exact hhead.trans (hbraces.trans (ih rfl (by omega)))

/-- The name of the requested record. -/
theorem reads_rootName {name : List Char} {c : Char} (hn : RootName name) (hc : c ∈ nameStops) :
    Reads limit ⟨.start, .objectName, b⟩ name
      ⟨.named { name := String.ofList name }, if c = '(' then .leftParen else .dot, b⟩ (c :: rest) := by
  refine reads_of_token (t := fun before => .cut .objectName before name) (fun before => ?_) fun _ => rfl
  have h := @Move.objectName b before name rest c hn.avoids hc
  rwa [Token.verbatim?_of_ne_nil _ _ hn.nonempty] at h

/-- The head of a query up to its left brace. -/
theorem reads_rootHead {name text : List Char} {argument : Option String} {calls : List Call} (hn : RootName name)
    (hq : Qualifier text argument calls) :
    Reads limit ⟨.start, .objectName, b⟩ (name ++ text)
      ⟨.resume (OpenHead.addCalls ⟨String.ofList name, argument, []⟩ calls) [], .leftBrace, b⟩ ('{' :: rest) := by
  cases hq with
  | argument ha hc hl =>
    exact (reads_rootName (c := '(') hn (by decide)).trans
      (reads_qualifier_argument ha hc hl (Stage.takes_named_leftParen _))
  | @call text texts layout c cs h hc hl =>
    have hcall := @reads_qualifier_call limit _ b { name := String.ofList name } [] rest _ _ _ _ _ h hc hl [] (fun _ => rfl)
      (Stage.takes_named_dot _)
    obtain ⟨hn', ha⟩ := h
    exact (reads_rootName (c := '.') hn (by decide)).trans hcall

/-- A query up to its last brace, whatever follows. -/
theorem reads_query {name text body : List Char} {argument : Option String} {calls : List Call} {es : List Selection}
    {n : Nat} (hn : RootName name) (hq : Qualifier text argument calls) (hb : Body body es n) (hl : n ≤ limit) :
    Reads limit ⟨.start, .objectName, false⟩ (name ++ (text ++ '{' :: (body ++ ['}'])))
      ⟨.complete (.group ⟨String.ofList name, argument, calls⟩ (fieldsOf es)), .afterBrace rest, true⟩ rest := by
  have hlt : ([] : List OpenGroup).length < limit := Nat.lt_of_lt_of_le hb.one_le hl
  have hbraces := @reads_braces limit false (OpenHead.addCalls ⟨String.ofList name, argument, []⟩ calls) [] rest body es hlt
    fun groups' hlen => reads_body hb rfl (by rw [hlen, List.length_nil]; omega)
  rw [OpenHead.close_addCalls, Stage.leaveGroup, OpenGroup.close_putAll_start] at hbraces
  rw [← List.append_assoc]
  exact (reads_rootHead hn hq).trans hbraces

/-- Behind its last brace a query may go on with blanks only. -/
theorem outcome_complete_of_blank {selection : Selection} (h : Blank rest) (before : List Char) :
    outcome limit ⟨.complete selection, .afterBrace rest, b⟩ before rest = .ok selection := by
  rw [afterBrace_of_blank h]
  exact Stage.outcome_of_stop .ending

/-- A complete selection is followed by nothing but the end of the input. -/
theorem outcome_complete_of_token {c c' : Cursor} {t : Token} (h : Move c (some t) c') (ht : t.kind ≠ .endOfInput)
    (selection : Selection) :
    ∃ e : ParseError, Stage.outcome limit (.complete selection) c = .error e ∧ e.IsTrailing := by
  cases hk : t.kind with
  | endOfInput => exact absurd hk ht
  | error f =>
    refine ⟨.scan f t.start, Stage.outcome_of_failed h ?_, trivial⟩
    simp only [Stage.read, hk]
  | _ =>
    refine ⟨.unexpected .endOfInput t.kind t.text t.start, Stage.outcome_of_failed h ?_, trivial⟩
    simp only [Stage.read, Stage.readToken, hk, ParseError.ofToken, reduceCtorEq, if_false]

/-- A query that goes on behind its last brace is in error there. -/
theorem outcome_complete_of_not_blank {selection : Selection} (h : ¬Blank rest) (before : List Char) :
    ∃ e : ParseError, outcome limit ⟨.complete selection, .afterBrace rest, b⟩ before rest = .error e ∧ e.IsTrailing := by
  rw [afterBrace_of_not_blank h]
  rcases avoids_or_split fieldStops rest with ha | ⟨name, c, rest, rfl, ha, hc⟩
  · exact ⟨_, Stage.outcome_of_fault (.fields ha), trivial⟩
  by_cases hb : Blank name
  · -- no token comes of the blanks, so the mark behind them is the first one
    rw [reads_blank hb]
    by_cases hp : c = '('
    · subst hp
      rw [outcome_paren]
      exact outcome_complete_of_token .leftParen nofun selection
    · obtain ⟨t, c', hmove, ht⟩ := @Cursor.exists_move_mark b (before ++ name) rest c hc hp
      rw [outcome_mark hc hp]
      exact outcome_complete_of_token hmove ht selection
  · by_cases hp : c = '('
    · subst hp
      have hmove := @Move.fieldFunction b before name rest ha
      rw [Token.trimmed?_of_not_blank _ _ hb] at hmove
      exact outcome_complete_of_token hmove nofun selection
    · have hmove := @Move.field b before name rest c ha hc hp
      rw [Token.trimmed?_of_not_blank _ _ hb] at hmove
      exact outcome_complete_of_token hmove nofun selection

end Phase

/-- The outcome of a query is decided by what stands behind its last brace. -/
theorem Selection.parse_of_braces {query : String} {name text body rest : List Char} {argument : Option String}
    {calls : List Call} {es : List Selection} {n limit : Nat} (hn : RootName name) (hq : Qualifier text argument calls)
    (hb : Body body es n) (hl : n ≤ limit) (h : query.toList = name ++ (text ++ '{' :: (body ++ '}' :: rest))) :
    Selection.parse query limit =
      Phase.outcome limit ⟨.complete (.group ⟨String.ofList name, argument, calls⟩ (fieldsOf es)), .afterBrace rest, true⟩
        (name ++ (text ++ '{' :: (body ++ ['}']))) rest := by
  have hread := @Phase.reads_query limit rest name text body argument calls es n hn hq hb hl []
  have htext : name ++ (text ++ '{' :: (body ++ '}' :: rest)) = name ++ (text ++ '{' :: (body ++ ['}'])) ++ rest := by
    simp only [List.append_assoc, List.cons_append, List.nil_append]
  rw [Selection.parse_eq_outcome, h, htext]
  exact hread

/-- A query is read as what it denotes, if its field groups are not nested too deep. -/
theorem Selection.parse_of_query {query : String} {t : Selection} {n limit : Nat} (h : Query query.toList t n)
    (hl : n ≤ limit) : Selection.parse query limit = .ok t := by
  generalize htext : query.toList = text at h
  obtain ⟨hn, hq, hb, ht⟩ := h
  rw [Selection.parse_of_braces hn hq hb hl htext]
  exact Phase.outcome_complete_of_blank ht _

end RecordQuery
