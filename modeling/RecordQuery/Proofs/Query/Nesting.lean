import RecordQuery.Proofs.Query.Image

/-!
# The limit of nested groups as a threshold

The limit is looked at in one place, where a left brace opens a group. What every other token leads to is the same under all
limits (`Stage.read_cases`). So a query has a number of groups that come to be open at once while it is read
(`Selection.nesting`): the outcome is the same under all limits that allow so many, and under all others it is the one error
that names the limit.
-/

namespace RecordQuery

/-- The error is about the limit. -/
def ParseError.IsTooDeep : ParseError → Prop
  | tooDeep _ => True
  | _ => False

namespace Stage

/-- The number of field groups that are open. -/
def level : Stage → Nat
  | start | named _ | root _ | complete _ => 0
  | callName _ groups | leftParen _ _ groups | argument _ _ groups | rightParen _ _ _ groups => groups.length
  | fields _ outer => outer.length + 1

/-- The number of field groups that come to be open at once while the tokens are read, if as many may be open as there are. -/
def nesting (stage : Stage) : List Token → Nat
  | [] => stage.level
  | t :: ts =>
    match stage.read (stage.level + 1) t with
    | .more next => max stage.level (next.nesting ts)
    | _ => stage.level

/-- The tokens are read from one stage to another. -/
inductive Leads (limit : Nat) : Stage → List Token → Stage → Prop where
  | nil {stage : Stage} : Leads limit stage [] stage
  | cons {stage next last : Stage} {t : Token} {ts : List Token} (h : stage.read limit t = .more next)
      (hs : Leads limit next ts last) : Leads limit stage (t :: ts) last

end Stage

/-- The progress is no error about the limit and opens no group beyond the first `n`. -/
def Progress.Within (n : Nat) : Progress → Prop
  | .more next => next.level ≤ n
  | .done _ => True
  | .failed e => ¬e.IsTooDeep

namespace Stage

variable {stage next : Stage} {t : Token} {ts : List Token} {limit : Nat}

/-! ## One token -/

/-- Behind an argument or a call as many groups are open as around it. -/
theorem level_resume (head : OpenHead) (groups : List OpenGroup) : (resume head groups).level = groups.length := by
  cases groups <;> rfl

theorem level_leaveGroup (group : OpenGroup) (outer : List OpenGroup) : (leaveGroup group outer).level = outer.length := by
  cases outer <;> rfl

/-- At the stage the token opens a group of this owner within these groups, if so many may be open. -/
inductive Opens (t : Token) : Stage → Head → List OpenGroup → Prop where
  | root {head : OpenHead} (hk : t.kind = .leftBrace) : Opens t (.root head) head.close []
  | field {group : OpenGroup} {outer : List OpenGroup} {head : OpenHead} (hk : t.kind = .leftBrace)
      (hc : group.current = some head) : Opens t (.fields group outer) head.close (group :: outer)

/-- The groups around one that is opened are those that are open. -/
theorem Opens.level {owner : Head} {outer : List OpenGroup} (h : Opens t stage owner outer) :
    stage.level = outer.length := by
  cases h <;> rfl

/-- A token that opens a group is read by opening it, unless that is one group too many. -/
theorem Opens.read {owner : Head} {outer : List OpenGroup} (h : Opens t stage owner outer) (limit : Nat) :
    stage.read limit t = openGroup limit owner outer := by
  cases h with
  | root hk => simp only [Stage.read, readToken, hk]
  | field hk hc => simp only [Stage.read, readToken, readField, hk, hc]

/-- A token that opens no group leads to the same under all limits. -/
theorem read_eq_of_not_opens (h : ∀ owner outer, ¬Opens t stage owner outer) (m n : Nat) :
    stage.read m t = stage.read n t := by
  obtain ⟨kind, text, start, stop⟩ := t
  cases stage with
  | root head =>
    cases kind with
    | leftBrace => exact absurd (.root rfl) (h _ _)
    | _ => rfl
  | fields group outer =>
    cases kind with
    | leftBrace =>
      cases hc : group.current with
      | none => simp only [read, readToken, readField, hc]
      | some head => exact absurd (.field rfl hc) (h _ _)
    | _ => rfl
  | _ => rfl

/-- After a token that opens no group no more groups are open than before, and the limit is not reported. -/
theorem within_read_of_not_opens (h : ∀ owner outer, ¬Opens t stage owner outer) :
    (stage.read limit t).Within stage.level := by
  obtain ⟨kind, text, start, stop⟩ := t
  cases stage with
  | start =>
    cases kind with
    | objectName => exact Nat.le_refl _
    | _ => exact id
  | named head =>
    cases kind with
    | leftParen | dot => exact Nat.le_refl _
    | _ => exact id
  | callName head groups =>
    cases kind with
    | function => exact Nat.le_refl _
    | _ => exact id
  | leftParen slot head groups =>
    cases kind with
    | leftParen => exact Nat.le_refl _
    | _ => exact id
  | argument slot head groups =>
    cases kind with
    | rightParen => exact (level_resume _ groups).le
    | argument => exact Nat.le_refl _
    | _ => exact id
  | rightParen slot text head groups =>
    cases kind with
    | rightParen => exact (level_resume _ groups).le
    | _ => exact id
  | root head =>
    cases kind with
    | dot => exact Nat.le_refl _
    | leftBrace => exact absurd (.root rfl) (h _ _)
    | _ => exact id
  | fields group outer =>
    obtain ⟨owner, fields, current⟩ := group
    cases kind with
    | comma | fieldName | function => exact Nat.le_refl _
    | dot =>
      cases current with
      | none => exact id
      | some head => exact Nat.le_refl _
    | leftBrace =>
      cases current with
      | none => exact id
      | some head => exact absurd (.field rfl rfl) (h _ _)
    | rightBrace => exact (level_leaveGroup _ outer).le.trans (Nat.le_succ _)
    | _ => exact id
  | complete selection =>
    cases kind with
    | endOfInput => exact trivial
    | _ => exact id

/-- A token opens a group, or it leads to the same under all limits, with no more groups open than before. -/
theorem read_cases (stage : Stage) (t : Token) :
    (∃ owner outer, Opens t stage owner outer) ∨
      ∃ p : Progress, p.Within stage.level ∧ ∀ limit, stage.read limit t = p := by
  by_cases h : ∃ owner outer, Opens t stage owner outer
  · exact .inl h
  · simp only [not_exists] at h
    exact .inr ⟨stage.read 0 t, within_read_of_not_opens h, fun limit => read_eq_of_not_opens h limit 0⟩

/-! ## Many tokens -/

/-- The groups that are open at first count as well. -/
theorem level_le_nesting (stage : Stage) (ts : List Token) : stage.level ≤ stage.nesting ts := by
  cases ts with
  | nil => exact Nat.le_refl _
  | cons t ts =>
    rw [nesting]
    split
    · exact Nat.le_max_left _ _
    · exact Nat.le_refl _

/-- A reading within a field group reaches at least as deep as the group. -/
theorem lt_nesting_fields (group : OpenGroup) (outer : List OpenGroup) (ts : List Token) :
    outer.length < (Stage.fields group outer).nesting ts :=
  level_le_nesting (.fields group outer) ts

/-- What is read after a group is opened reaches at least as deep. -/
theorem nesting_of_opens {owner : Head} {outer : List OpenGroup} (h : Opens t stage owner outer) :
    stage.nesting (t :: ts) = (Stage.fields (.start owner) outer).nesting ts := by
  rw [nesting, h.read, h.level, openGroup, if_pos (Nat.lt_succ_self _)]
  exact Nat.max_eq_right (lt_nesting_fields _ outer ts).le

/-- What is read after a token reaches no deeper than all that is read. -/
theorem nesting_le_of_more (hr : stage.read limit t = .more next) : next.nesting ts ≤ stage.nesting (t :: ts) := by
  rcases read_cases stage t with ⟨owner, outer, ho⟩ | ⟨p, _, hread⟩
  · rw [ho.read, openGroup] at hr
    split at hr
    · cases hr
      rw [nesting_of_opens ho]
    · cases hr
  · rw [hread] at hr
    rw [nesting, hread, hr]
    exact Nat.le_max_right _ _

/-- The outcome is the same under all limits that allow the groups that come to be open, and it is no error about the limit. -/
theorem exists_outcome_of_nesting_le (stage : Stage) (ts : List Token) :
    ∃ outcome : Except ParseError Selection, (∀ e, outcome = .error e → ¬e.IsTooDeep) ∧
      ∀ limit, stage.nesting ts ≤ limit → (stage.readAll limit ts).1 = outcome := by
  induction ts generalizing stage with
  | nil =>
    refine ⟨.error (.unexpectedEnd .moreInput), ?_, fun _ _ => rfl⟩
    rintro e ⟨⟩
    exact id
  | cons t ts ih =>
    rcases read_cases stage t with ⟨owner, outer, ho⟩ | ⟨p, hp, hread⟩
    · -- the reading goes on within the group, so each of these limits has room for it
      obtain ⟨outcome, hno, hall⟩ := ih (.fields (.start owner) outer)
      refine ⟨outcome, hno, ?_⟩
      intro limit hle
      rw [nesting_of_opens ho] at hle
      have hroom : outer.length < limit := Nat.lt_of_lt_of_le (lt_nesting_fields _ outer ts) hle
      rw [readAll_cons, ho.read, openGroup, if_pos hroom]
      exact hall limit hle
    · simp only [readAll_cons, hread]
      cases p with
      | more next =>
        obtain ⟨outcome, hno, hall⟩ := ih next
        refine ⟨outcome, hno, ?_⟩
        intro limit hle
        exact hall limit ((nesting_le_of_more (hread limit)).trans hle)
      | done selection =>
        refine ⟨.ok selection, ?_, fun _ _ => rfl⟩
        rintro e ⟨⟩
      | failed error =>
        refine ⟨.error error, ?_, fun _ _ => rfl⟩
        rintro e ⟨⟩
        exact hp

/-- A limit below the number of groups that come to be open is the error. -/
theorem readAll_of_lt_nesting (hl : stage.level ≤ limit) (hlt : limit < stage.nesting ts) :
    (stage.readAll limit ts).1 = .error (.tooDeep limit) := by
  induction ts generalizing stage with
  | nil => exact absurd hl (Nat.not_le_of_lt hlt)
  | cons t ts ih =>
    rcases read_cases stage t with ⟨owner, outer, ho⟩ | ⟨p, hp, hread⟩
    · rw [nesting_of_opens ho] at hlt
      rw [readAll_cons, ho.read, openGroup]
      by_cases hroom : outer.length < limit
      · rw [if_pos hroom]
        exact ih hroom hlt
      · rw [if_neg hroom]
        rfl
    · rw [nesting, hread] at hlt
      rw [readAll_cons, hread]
      cases p with
      | more next =>
        have hnext : limit < next.nesting ts := by
          simp only at hlt
          omega
        exact ih (Nat.le_trans hp hl) hnext
      | done _ | failed _ => exact absurd hl (Nat.not_le_of_lt hlt)

/-! ## The brace of the requested record -/

/-- The brace of the requested record opens a group, so the nesting is not zero. -/
theorem Leads.nesting_pos {head : OpenHead} {rest : List Token} (h : Leads limit stage ts (.root head))
    (hk : t.kind = .leftBrace) : 1 ≤ stage.nesting (ts ++ t :: rest) := by
  generalize hlast : Stage.root head = last at h
  induction h with
  | nil =>
    subst hlast
    rw [List.nil_append, nesting_of_opens (.root hk)]
    exact lt_nesting_fields _ [] rest
  | cons hr _ ih => exact (ih hlast).trans (nesting_le_of_more hr)

/-- A group is opened while none is open only by the brace of the requested record. -/
theorem exists_leads_of_nesting_pos (limit : Nat) (hl : stage.level = 0) (hpos : 1 ≤ stage.nesting ts) :
    ∃ read brace rest head, ts = read ++ brace :: rest ∧ Leads limit stage read (.root head) ∧ brace.kind = .leftBrace := by
  induction ts generalizing stage with
  | nil => exact absurd hpos (Nat.not_le_of_lt (Nat.lt_succ_of_le hl.le))
  | cons t ts ih =>
    rcases read_cases stage t with ⟨owner, outer, ho⟩ | ⟨p, hp, hread⟩
    · cases ho with
      | root hk => exact ⟨[], t, ts, _, rfl, .nil, hk⟩
      | field => cases hl
    · rw [nesting, hread, hl] at hpos
      rw [hl] at hp
      cases p with
      | more next =>
        have hnext : 1 ≤ next.nesting ts := by
          simp only at hpos
          omega
        obtain ⟨read, brace, rest, head, rfl, hs, hk⟩ := ih (Nat.le_zero.mp hp) hnext
        exact ⟨t :: read, brace, rest, head, rfl, .cons (hread limit) hs, hk⟩
      | done _ | failed _ => exact absurd hpos (Nat.not_succ_le_zero 0)

end Stage

namespace Selection

/-- The number of field groups that come to be open at once while the query is read. -/
def nesting (query : String) : Nat := Stage.start.nesting (Scanner.ofString query).tokens

/-- The query is read as far as the left brace of the requested record, that brace included. -/
def OpensRoot (limit : Nat) (query : String) : Prop :=
  ∃ read brace rest head, (Scanner.ofString query).tokens = read ++ brace :: rest ∧
    Stage.Leads limit .start read (.root head) ∧ brace.kind = .leftBrace

/-- The limit is a threshold. From the nesting of the query on the outcome does not depend on it and is no error about it;
below, the outcome is that error. What is read is no deeper than the nesting, which is zero for the queries in which the brace
of the requested record is not reached. So a higher limit changes nothing but that error. -/
theorem parse_threshold (query : String) :
    (∀ limit, nesting query ≤ limit → parse query limit = parse query (nesting query)) ∧
      (∀ limit, limit < nesting query → parse query limit = .error (.tooDeep limit)) ∧
      (∀ n, parse query (nesting query) ≠ .error (.tooDeep n)) ∧
      (∀ t, parse query (nesting query) = .ok t → 1 ≤ t.height ∧ t.height ≤ nesting query) ∧
      (∀ limit, nesting query = 0 ↔ ¬OpensRoot limit query) ∧
      (∀ m n, m ≤ n → (∀ l, parse query m ≠ .error (.tooDeep l)) → parse query n = parse query m) ∧
      ∀ limit t, parse query limit = .ok t → t.height ≤ limit := by
  obtain ⟨outcome, hno, hall⟩ := Stage.exists_outcome_of_nesting_le .start (Scanner.ofString query).tokens
  have hsame (limit : Nat) (h : nesting query ≤ limit) : parse query limit = outcome := hall limit h
  have hbelow (limit : Nat) (h : limit < nesting query) : parse query limit = .error (.tooDeep limit) :=
    Stage.readAll_of_lt_nesting (Nat.zero_le _) h
  have hheight (limit : Nat) (t : Selection) (h : parse query limit = .ok t) : 1 ≤ t.height ∧ t.height ≤ limit := by
    obtain ⟨n, hn, hq⟩ := query_of_parse h
    obtain ⟨hshape, hle⟩ := hq.isQuery
    refine ⟨?_, hle.trans hn⟩
    cases hshape
    exact Nat.le_add_right 1 _
  refine ⟨fun limit h => ?same, hbelow, fun n h => ?notTooDeep, hheight _, fun limit => ?root, fun m n hmn hm => ?higher,
    fun limit t h => (hheight limit t h).2⟩
  case same => rw [hsame limit h, hsame _ (Nat.le_refl _)]
  case notTooDeep =>
    rw [hsame _ (Nat.le_refl _)] at h
    exact hno _ h trivial
  case root =>
    constructor
    · rintro hzero ⟨read, brace, rest, head, htokens, hs, hk⟩
      have hpos : 1 ≤ Stage.start.nesting (read ++ brace :: rest) := hs.nesting_pos hk
      rw [← htokens] at hpos
      exact Nat.not_succ_le_zero 0 (hpos.trans hzero.le)
    · intro hnot
      by_contra hne
      exact hnot (Stage.exists_leads_of_nesting_pos limit rfl (Nat.pos_of_ne_zero hne))
  case higher =>
    -- a limit below the nesting would have been reported
    have hle : nesting query ≤ m := Nat.le_of_not_lt fun h => hm m (hbelow m h)
    rw [hsame n (hle.trans hmn), hsame m hle]

/-- A group that a later field of its name replaces counts towards the nesting and not towards the height. -/
example : nesting "a(){b{c},b}" = 2 ∧
    (parse "a(){b{c},b}").toOption.map height = some 1 := by decide +kernel

end Selection

end RecordQuery
