import RecordQuery.Proofs.Selection.Phase

/-!
# What the pieces of a query do to the reader

For every piece of the grammar, the phase to which it leads, whatever stands around it: marks, arguments, calls, qualifiers,
and the names and blanks inside a field group. `Stage.Takes` says what a mark leads to at a stage.
-/

namespace RecordQuery

open Text Grammar

namespace Stage

/-- A token of this kind leads from one stage to another. -/
def Takes (limit : Nat) (stage : Stage) (kind : TokenKind) (next : Stage) : Prop :=
  ∀ t : Token, t.kind = kind → stage.read limit t = .more next

variable {limit : Nat}

/-- A left parenthesis behind the name of the requested record starts its argument. -/
theorem takes_named_leftParen (head : OpenHead) : (named head).Takes limit .leftParen (.argument .own head []) := by
  intro t ht
  simp only [read, readToken, ht]

theorem takes_named_dot (head : OpenHead) : (named head).Takes limit .dot (.callName head []) := by
  intro t ht
  simp only [read, readToken, ht]

/-- A left parenthesis where one is to come starts the argument. -/
theorem takes_leftParen (slot : ArgumentSlot) (head : OpenHead) (groups : List OpenGroup) :
    (leftParen slot head groups).Takes limit .leftParen (.argument slot head groups) := by
  intro t ht
  simp only [read, readToken, ht, if_true]

/-- Parentheses without an argument between them. -/
theorem takes_argument_rightParen (slot : ArgumentSlot) (head : OpenHead) (groups : List OpenGroup) :
    (argument slot head groups).Takes limit .rightParen (resume (head.fill none slot) groups) := by
  intro t ht
  simp only [read, readToken, ht]

theorem takes_rightParen (slot : ArgumentSlot) (text : String) (head : OpenHead) (groups : List OpenGroup) :
    (rightParen slot text head groups).Takes limit .rightParen (resume (head.fill (some text) slot) groups) := by
  intro t ht
  simp only [read, readToken, ht, if_true]

/-- A dot behind a head starts a call. The groups around the head may name it as their current field, which makes no
difference when the reader comes back to them. -/
theorem takes_resume_dot (head : OpenHead) (groups : List OpenGroup) :
    ∃ groups', (∀ h, resume h groups' = resume h groups) ∧
      (resume head groups).Takes limit .dot (.callName head groups') := by
  cases groups with
  | nil =>
    refine ⟨[], fun _ => rfl, fun t ht => ?_⟩
    simp only [resume, read, readToken, ht]
  | cons group outer =>
    refine ⟨group.enter head :: outer, fun _ => rfl, fun t ht => ?_⟩
    simp only [resume, read, readToken, readField, ht, OpenGroup.enter]

/-- A left brace behind a head opens its field group, if one more may be open. -/
theorem takes_resume_leftBrace (head : OpenHead) {groups : List OpenGroup} (h : groups.length < limit) :
    ∃ groups', groups'.length = groups.length ∧ (∀ inner, leaveGroup inner groups' = leaveGroup inner groups) ∧
      (resume head groups).Takes limit .leftBrace (.fields (.start head.close) groups') := by
  cases groups with
  | nil =>
    refine ⟨[], rfl, fun _ => rfl, fun t ht => ?_⟩
    simp only [resume, read, readToken, ht, openGroup, if_pos h]
  | cons group outer =>
    refine ⟨group.enter head :: outer, rfl, fun _ => rfl, fun t ht => ?_⟩
    have h' : (group.enter head :: outer).length < limit := h
    simp only [resume, read, readToken, readField, ht, OpenGroup.enter, openGroup, List.length_cons] at h' ⊢
    rw [if_pos h']

/-- A left brace behind a head with too many groups around it. -/
theorem read_resume_leftBrace_tooDeep (head : OpenHead) {groups : List OpenGroup} (h : ¬groups.length < limit) {t : Token}
    (ht : t.kind = .leftBrace) : (resume head groups).read limit t = .failed (.tooDeep limit) := by
  cases groups with
  | nil => simp only [resume, read, readToken, ht, openGroup, if_neg h]
  | cons group outer =>
    have h' : ¬(group.enter head :: outer).length < limit := h
    simp only [resume, read, readToken, readField, ht, OpenGroup.enter, openGroup, List.length_cons] at h' ⊢
    rw [if_neg h']

/-- A comma puts the current field into its group. -/
theorem takes_fields_comma (group : OpenGroup) (outer : List OpenGroup) :
    (fields group outer).Takes limit .comma (.fields group.settle outer) := by
  intro t ht
  simp only [read, readToken, readField, ht]

theorem takes_fields_rightBrace (group : OpenGroup) (outer : List OpenGroup) :
    (fields group outer).Takes limit .rightBrace (leaveGroup group outer) := by
  intro t ht
  simp only [read, readToken, readField, ht]

end Stage

namespace OpenGroup

/-- Without a current field there is nothing to put into the group. -/
theorem settle_of_current_none {g : OpenGroup} (h : g.current = none) : g.settle = g := by
  rw [settle, h]

theorem leave_of_current_none {g : OpenGroup} (h : g.current = none) : g.leave = g := by
  obtain ⟨owner, fields, current⟩ := g
  cases h
  rfl

/-- The current field is put into its group once. -/
@[simp] theorem settle_settle (g : OpenGroup) : g.settle.settle = g.settle := by
  cases h : g.current with
  | none => rw [settle_of_current_none h, settle_of_current_none h]
  | some head => simp only [settle, h, leave]

@[simp] theorem close_settle (g : OpenGroup) : g.settle.close = g.close := by
  have ho : g.settle.owner = g.owner := by
    cases h : g.current <;> simp only [settle, h, leave, put]
  rw [close, close, settle_settle, ho]

end OpenGroup

namespace Stage

/-- The end of a group leads on alike, whether its current field was put into it before or not. -/
@[simp] theorem leaveGroup_settle (group : OpenGroup) (outer : List OpenGroup) :
    leaveGroup group.settle outer = leaveGroup group outer := by
  cases outer with
  | nil => simp only [leaveGroup, OpenGroup.close_settle]
  | cons parent outer => simp only [leaveGroup, OpenGroup.close_settle]

end Stage

namespace Phase

variable {limit : Nat} {stage next : Stage} {b : Bool} {head : OpenHead} {groups : List OpenGroup} {rest : List Char}

/-! ## Marks -/

/-- Layout behind a right parenthesis is skipped. -/
theorem reads_rightParen {layout : List Char} (hs : stage.Takes limit .rightParen next) (hl : Layout layout)
    (hr : StartsSolid rest) :
    Reads limit ⟨stage, .rightParen, b⟩ (')' :: layout) ⟨next, .afterParen rest, b⟩ rest :=
  reads_of_token (fun _ => .rightParen hl hr) fun _ => hs _ rfl

/-- A left parenthesis leads to the argument behind it. -/
theorem reads_leftParen (hs : stage.Takes limit .leftParen next) :
    Reads limit ⟨stage, .leftParen, b⟩ ['('] ⟨next, .argument, b⟩ rest :=
  reads_of_token (fun _ => .leftParen) fun _ => hs _ rfl

theorem reads_dot (hs : stage.Takes limit .dot next) :
    Reads limit ⟨stage, .dot, b⟩ ['.'] ⟨next, .functionName, b⟩ rest :=
  reads_of_token (fun _ => .dot) fun _ => hs _ rfl

theorem reads_rightBrace (hs : stage.Takes limit .rightBrace next) :
    Reads limit ⟨stage, .rightBrace, b⟩ ['}'] ⟨next, .afterBrace rest, b⟩ rest :=
  reads_of_token (fun _ => .rightBrace) fun _ => hs _ rfl

/-! ## Blanks in a field group -/

/-- In a field group it makes no difference whether blanks are dropped or still ahead. -/
theorem tokens_fields_blank {blanks : List Char} (hb : Blank blanks) (before : List Char) :
    Cursor.tokens ⟨.fields, b, before, blanks ++ rest⟩ = Cursor.tokens ⟨.fields, b, before ++ blanks, rest⟩ := by
  have trimmed (kind : TokenKind) (name : List Char) :
      Token.trimmed? kind before (blanks ++ name) = Token.trimmed? kind (before ++ blanks) name := by
    simp only [Token.trimmed?, trim_append_of_blank hb, List.takeWhile_append_of_pos hb, List.append_assoc]
  rcases avoids_or_split fieldStops rest with ha | ⟨name, c, rest, rfl, hn, hc⟩
  · rw [Cursor.tokens_of_stop (.fields (avoids_append.mpr ⟨hb.avoids_fieldStops, ha⟩)), Cursor.tokens_of_stop (.fields ha),
      List.append_assoc]
  · have hn' := avoids_append.mpr ⟨hb.avoids_fieldStops, hn⟩
    rw [← List.append_assoc blanks]
    by_cases hp : c = '('
    · subst hp
      rw [Cursor.tokens_of_move (.fieldFunction hn'), Cursor.tokens_of_move (.fieldFunction hn), trimmed,
        List.append_assoc]
    · rw [Cursor.tokens_of_move (.field hn' hc hp), Cursor.tokens_of_move (.field hn hc hp), trimmed, List.append_assoc]

/-- Blanks in a field group are read over. -/
theorem reads_blank {blanks : List Char} (hb : Blank blanks) :
    Reads limit ⟨stage, .fields, b⟩ blanks ⟨stage, .fields, b⟩ rest := by
  intro before
  simp only [outcome, Stage.outcome, tokens_fields_blank hb]

/-- Blanks that were dropped on the way into a field group may as well be read there. -/
theorem Reads.of_blank {p : Phase} {text blanks : List Char} (hb : Blank blanks)
    (h : Reads limit p (text ++ blanks) ⟨stage, .fields, b⟩ rest) :
    Reads limit p text ⟨stage, .fields, b⟩ (blanks ++ rest) := by
  intro before
  rw [← List.append_assoc, h, ← List.append_assoc]
  exact (reads_blank hb (before ++ text)).symm

/-- A left brace leads into a field group. -/
theorem reads_leftBrace (hs : stage.Takes limit .leftBrace next) :
    Reads limit ⟨stage, .leftBrace, b⟩ ['{'] ⟨next, .fields, true⟩ rest := by
  obtain ⟨layout, rest, rfl, hl, hr⟩ := exists_layout_split rest
  exact Reads.of_blank hl.blank (reads_of_token (fun _ => .leftBrace hl hr) fun _ => hs _ rfl)

theorem reads_comma (hs : stage.Takes limit .comma next) :
    Reads limit ⟨stage, .comma, b⟩ [','] ⟨next, .fields, b⟩ rest := by
  obtain ⟨layout, rest, rfl, hl, hr⟩ := exists_layout_split rest
  exact Reads.of_blank hl.blank (reads_of_token (fun _ => .comma hl hr) fun _ => hs _ rfl)

/-- In front of a mark, blanks in a field group are read over silently. -/
theorem reads_blank_mark {blanks : List Char} {c : Char} (hb : Blank blanks) (hc : c ∈ fieldStops) (hp : c ≠ '(') :
    Reads limit ⟨stage, .fields, b⟩ blanks ⟨stage, Scanner.delimiterMode c, b⟩ (c :: rest) := by
  refine reads_of_silent fun before => ?_
  have h := @Move.field b before blanks rest c hb.avoids_fieldStops hc hp
  rwa [Token.trimmed?_of_blank _ _ hb] at h

/-- In front of a mark it makes no difference whether the scanner has seen it. -/
theorem outcome_mark {c : Char} (hc : c ∈ fieldStops) (hp : c ≠ '(') (stage : Stage) (before : List Char) :
    outcome limit ⟨stage, .fields, b⟩ before (c :: rest) =
      outcome limit ⟨stage, Scanner.delimiterMode c, b⟩ before (c :: rest) := by
  have h := @reads_blank_mark limit stage b rest [] c blank_nil hc hp before
  rwa [List.append_nil] at h

/-- In front of a left parenthesis as well. -/
theorem outcome_paren (stage : Stage) (before : List Char) :
    outcome limit ⟨stage, .fields, b⟩ before ('(' :: rest) = outcome limit ⟨stage, .leftParen, b⟩ before ('(' :: rest) := by
  have h := @Move.fieldFunction b before [] rest (avoids_nil fieldStops)
  rw [Token.trimmed?_of_blank _ _ blank_nil, List.append_nil] at h
  exact Stage.outcome_of_silent h

/-- A text that leads on from a mark leads on from where the mark is still ahead. -/
theorem Reads.of_mark {p : Phase} {text : List Char} {c : Char} (hc : c ∈ fieldStops) (hp : c ≠ '(')
    (h : Reads limit ⟨stage, Scanner.delimiterMode c, b⟩ (c :: text) p rest) :
    Reads limit ⟨stage, .fields, b⟩ (c :: text) p rest :=
  fun before => (outcome_mark hc hp stage before).trans (h before)

/-- Behind a right brace that is not the last one, the field group around it goes on. -/
theorem afterBrace_of_not_blank (h : ¬Blank rest) : Scanner.Mode.afterBrace rest = .fields :=
  if_neg fun hb => h (all_isBlank_iff.mp hb)

/-- Behind the last right brace the query ends. -/
theorem afterBrace_of_blank (h : Blank rest) : Scanner.Mode.afterBrace rest = .ending :=
  if_pos (all_isBlank_iff.mpr h)

/-! ## Arguments and calls -/

/-- An argument leads to a stage at which a right parenthesis completes it. -/
theorem reads_argument {text : List Char} (ha : Avoids argumentStops text) (slot : ArgumentSlot) :
    ∃ s : Stage, s.Takes limit .rightParen (.resume (head.fill (argumentOf text) slot) groups) ∧
      Reads limit ⟨.argument slot head groups, .argument, b⟩ text ⟨s, .rightParen, b⟩ (')' :: rest) := by
  by_cases ht : text = []
  · subst ht
    exact ⟨_, Stage.takes_argument_rightParen slot head groups, reads_of_silent fun _ => .argument ha⟩
  · refine ⟨.rightParen slot (String.ofList text) head groups, ?_, ?_⟩
    · rw [argumentOf, if_neg ht]
      exact Stage.takes_rightParen slot _ head groups
    · refine reads_of_token (t := fun before => .cut .argument before text) (fun before => ?_) fun _ => rfl
      have h := @Move.argument b before text rest ha
      rwa [Token.verbatim?_of_ne_nil _ _ ht] at h

/-- The name of a call with its left parenthesis. -/
theorem reads_callName {name : List Char} (hn : CallName name) :
    Reads limit ⟨.callName head groups, .functionName, b⟩ (name ++ ['('])
      ⟨.argument (.call (wordOf name)) head groups, .argument, b⟩ rest := by
  have h : Reads limit ⟨.callName head groups, .functionName, b⟩ name
      ⟨.leftParen (.call (wordOf name)) head groups, .leftParen, b⟩ ('(' :: rest) := by
    refine reads_of_token (t := fun before => .cut .function (before ++ name.takeWhile isBlank) (trim name))
      (fun before => ?_) fun _ => rfl
    have h := @Move.functionName b before name rest hn.avoids
    rwa [Token.trimmed?_of_not_blank _ _ hn.notBlank] at h
  exact h.trans (reads_leftParen (Stage.takes_leftParen _ _ _))

/-! ## Names in a field group -/

variable {group : OpenGroup} {outer : List OpenGroup} {name : List Char}

/-- A comma in a field group without a current field is skipped. -/
theorem reads_fields_comma (hg : group.current = none) :
    Reads limit ⟨.fields group outer, .fields, b⟩ [','] ⟨.fields group outer, .fields, b⟩ rest := by
  have hcomma := @Stage.takes_fields_comma limit group outer
  rw [OpenGroup.settle_of_current_none hg] at hcomma
  exact Reads.of_mark (by decide) (by decide) (reads_comma hcomma)

/-- A name in front of a mark that is no parenthesis becomes the current field. -/
theorem reads_fieldName {c : Char} (hn : FieldName name) (hc : c ∈ fieldStops) (hp : c ≠ '(') :
    Reads limit ⟨.fields group outer, .fields, b⟩ name
      ⟨.fields (group.settle.enter { name := wordOf name }) outer, Scanner.delimiterMode c, b⟩ (c :: rest) := by
  refine reads_of_token (t := fun before => .cut .fieldName (before ++ name.takeWhile isBlank) (trim name))
    (fun before => ?_) fun _ => rfl
  have h := @Move.field b before name rest c hn.avoids hc hp
  rwa [Token.trimmed?_of_not_blank _ _ hn.notBlank] at h

/-- A name in front of a left parenthesis becomes a field that waits for its argument. -/
theorem reads_fieldFunction (hn : FieldName name) :
    Reads limit ⟨.fields group outer, .fields, b⟩ name
      ⟨.leftParen .own { name := wordOf name } (group.settle :: outer), .leftParen, b⟩ ('(' :: rest) := by
  refine reads_of_token (t := fun before => .cut .function (before ++ name.takeWhile isBlank) (trim name))
    (fun before => ?_) fun _ => rfl
  have h := @Move.fieldFunction b before name rest hn.avoids
  rwa [Token.trimmed?_of_not_blank _ _ hn.notBlank] at h

/-- In front of a comma or a right brace it makes no difference whether the current field is already put into its group. -/
theorem outcome_settle {c : Char} (hc : c = ',' ∨ c = '}') (before : List Char) :
    outcome limit ⟨.fields group outer, Scanner.delimiterMode c, b⟩ before (c :: rest) =
      outcome limit ⟨.fields group.settle outer, Scanner.delimiterMode c, b⟩ before (c :: rest) := by
  rcases hc with rfl | rfl
  · have h (g : OpenGroup) : outcome limit ⟨.fields g outer, .comma, b⟩ before (',' :: rest) =
        outcome limit ⟨.fields g.settle outer, .fields, b⟩ (before ++ [',']) rest :=
      reads_comma (Stage.takes_fields_comma g outer) before
    have h' := h group.settle
    rw [OpenGroup.settle_settle] at h'
    exact (h group).trans h'.symm
  · have h (g : OpenGroup) : outcome limit ⟨.fields g outer, .rightBrace, b⟩ before ('}' :: rest) =
        outcome limit ⟨Stage.leaveGroup g outer, .afterBrace rest, b⟩ (before ++ ['}']) rest :=
      reads_rightBrace (Stage.takes_fields_rightBrace g outer) before
    have h' := h group.settle
    rw [Stage.leaveGroup_settle] at h'
    exact (h group).trans h'.symm

/-- A name in front of a comma or a right brace is a plain field. -/
theorem reads_leaf {c : Char} (hn : FieldName name) (hc : c = ',' ∨ c = '}') (hg : group.current = none) :
    Reads limit ⟨.fields group outer, .fields, b⟩ name
      ⟨.fields (group.put (.leaf ⟨wordOf name, none, []⟩)) outer, .fields, b⟩ (c :: rest) := by
  have hs : c ∈ fieldStops ∧ c ≠ '(' := by rcases hc with rfl | rfl <;> decide
  have hput : (group.settle.enter { name := wordOf name }).settle = group.put (.leaf ⟨wordOf name, none, []⟩) := by
    rw [OpenGroup.settle_of_current_none hg]
    obtain ⟨owner, fields, current⟩ := group
    cases hg
    rfl
  intro before
  rw [reads_fieldName hn hs.1 hs.2, outcome_settle hc, hput, outcome_mark hs.1 hs.2]

end Phase

end RecordQuery
