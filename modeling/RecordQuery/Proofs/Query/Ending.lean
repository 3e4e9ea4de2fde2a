import RecordQuery.Proofs.Query.Extension
import RecordQuery.Proofs.Query.Nesting
import RecordQuery.Proofs.Token.Automaton

/-!
# Where reading ends

Reading takes tokens one at a time and ends with the first one that completes the query or does not fit (`Stage.exists_leads`).
An error tells about this token (`ParseError.IsAbout`). A terminal token always ends the reading, so the tokens of a query never
run out.
-/

namespace RecordQuery

/-- What comes of a token with which reading ends. -/
inductive Progress.Ends : Progress → Except ParseError Selection → Prop where
  | done {selection : Selection} : Ends (.done selection) (.ok selection)
  | failed {e : ParseError} : Ends (.failed e) (.error e)

/-- The error tells about the token. -/
def ParseError.IsAbout (t : Token) : ParseError → Prop
  | scan fault offset => t.kind = .error fault ∧ offset = t.start
  | noRoot found => found = t.kind
  | unexpected _ found text offset => found = t.kind ∧ text = t.text ∧ offset = t.start
  | unexpectedEnd _ => t.kind = .endOfInput
  | detached found offset => found = t.kind ∧ offset = t.start
  | tooDeep _ => t.kind = .leftBrace

/-- What a token can lead to at a stage: never back to the start, to a complete selection with the end of the input only, and to
an error about the token, which is no error about a missing name but at the start. -/
def Progress.Comes (stage : Stage) (t : Token) : Progress → Prop
  | .more next => next ≠ .start
  | .done _ => t.kind = .endOfInput
  | .failed e => e.IsAbout t ∧ ∀ found, e = .noRoot found → stage = .start

namespace Stage

variable {limit : Nat} {stage last : Stage} {t : Token} {ts rest : List Token} {e : ParseError}

/-! ## One token -/

/-- The error of a token that is not the expected one tells about the token. -/
theorem comes_ofToken (stage : Stage) (expected : Expectation) (t : Token) :
    Progress.Comes stage t (.failed (.ofToken expected t)) := by
  unfold ParseError.ofToken
  split
  next h => exact ⟨h, nofun⟩
  next h => exact ⟨⟨rfl, rfl, rfl⟩, nofun⟩

theorem comes_resume (stage : Stage) (t : Token) (head : OpenHead) (groups : List OpenGroup) :
    Progress.Comes stage t (.more (resume head groups)) := by
  cases groups <;> nofun

/-- A left brace opens a field group or is one too many. -/
theorem comes_openGroup (limit : Nat) (stage : Stage) (owner : Head) (outer : List OpenGroup) (h : t.kind = .leftBrace) :
    (openGroup limit owner outer).Comes stage t := by
  unfold openGroup
  split
  · nofun
  · exact ⟨h, nofun⟩

/-- What a token can lead to inside a field group. -/
theorem comes_readField (limit : Nat) (group : OpenGroup) (outer : List OpenGroup) (t : Token) :
    (readField limit group outer t).Comes (.fields group outer) t := by
  unfold readField
  split
  next => nofun
  next => nofun
  next => nofun
  next hk =>
    split
    · nofun
    · exact ⟨⟨hk.symm, rfl⟩, nofun⟩
  next hk =>
    split
    · exact comes_openGroup limit _ _ _ hk
    · exact ⟨⟨hk.symm, rfl⟩, nofun⟩
  next => cases outer <;> nofun
  next hk => exact ⟨hk, nofun⟩
  next => exact comes_ofToken _ _ t

/-- What a token that is no fault can lead to at any stage. -/
theorem comes_readToken (limit : Nat) (stage : Stage) (t : Token) : (stage.readToken limit t).Comes stage t := by
  cases stage with
  | fields group outer => exact comes_readField limit group outer t
  | start =>
    simp only [readToken]
    split
    · simp [Progress.Comes]
    · exact ⟨rfl, fun _ _ => rfl⟩
  | callName | leftParen =>
    simp only [readToken]
    split
    · simp [Progress.Comes]
    · exact comes_ofToken _ _ t
  | named head =>
    simp only [readToken]
    split
    · simp [Progress.Comes]
    · simp [Progress.Comes]
    · exact comes_ofToken _ _ t
  | argument slot head groups =>
    simp only [readToken]
    split
    · exact comes_resume _ t _ groups
    · simp [Progress.Comes]
    · exact comes_ofToken _ _ t
  | rightParen slot text head groups =>
    simp only [readToken]
    split
    · exact comes_resume _ t _ groups
    · exact comes_ofToken _ _ t
  | root head =>
    simp only [readToken]
    split
    next => simp [Progress.Comes]
    next hk => exact comes_openGroup limit _ _ _ hk
    next => exact comes_ofToken _ _ t
  | complete selection =>
    simp only [readToken]
    split
    next hk => exact hk
    next => exact comes_ofToken _ _ t

/-- What a token can lead to at any stage, a fault of the scan included. -/
theorem comes_read (limit : Nat) (stage : Stage) (t : Token) : (stage.read limit t).Comes stage t := by
  unfold read
  split
  next fault hk => exact ⟨⟨hk, rfl⟩, nofun⟩
  next => exact comes_readToken limit stage t

/-- The error that a token causes tells about the token. -/
theorem isAbout_of_read (h : stage.read limit t = .failed e) : e.IsAbout t := by
  have hcomes := comes_read limit stage t
  rw [h] at hcomes
  exact hcomes.1

/-- A terminal token ends the reading at every stage. -/
theorem exists_ends_of_terminal (h : t.kind.isTerminal = true) (limit : Nat) (stage : Stage) :
    ∃ outcome, (stage.read limit t).Ends outcome := by
  have hdone {selection : Selection} (hr : stage.read limit t = .done selection) :
      ∃ outcome, (stage.read limit t).Ends outcome := by
    rw [hr]
    exact ⟨_, .done⟩
  have hfailed {e : ParseError} (hr : stage.read limit t = .failed e) : ∃ outcome, (stage.read limit t).Ends outcome := by
    rw [hr]
    exact ⟨_, .failed⟩
  cases hk : t.kind with
  | endOfInput =>
    rcases @read_endOfInput limit stage t hk with ⟨selection, hr⟩ | ⟨e, hr, _⟩
    · exact hdone hr
    · exact hfailed hr
  | error fault =>
    refine hfailed (e := .scan fault t.start) ?_
    simp only [read, hk]
  | _ =>
    rw [hk] at h
    cases h

/-! ## Many tokens -/

/-- Reading ends with the first token that completes the query or does not fit, and what follows is left. -/
theorem readAll_of_leads {read : List Token} {outcome : Except ParseError Selection} (h : Leads limit stage read last)
    (he : (last.read limit t).Ends outcome) : stage.readAll limit (read ++ t :: rest) = (outcome, rest) := by
  induction h with
  | nil =>
    rw [List.nil_append, readAll]
    cases hr : Stage.read limit _ t with
    | more next =>
      rw [hr] at he
      cases he
    | done _ | failed _ =>
      rw [hr] at he
      cases he
      rfl
  | cons hr _ ih =>
    rw [List.cons_append, readAll, hr]
    exact ih he

/-- Where the last token is terminal, there is a token with which reading ends. -/
theorem exists_leads (limit : Nat) (stage : Stage) (h : ∃ front t, ts = front ++ [t] ∧ t.kind.isTerminal = true) :
    ∃ read t rest last outcome, ts = read ++ t :: rest ∧ Leads limit stage read last ∧
      (last.read limit t).Ends outcome := by
  obtain ⟨front, final, rfl, hfinal⟩ := h
  induction front generalizing stage with
  | nil =>
    obtain ⟨outcome, he⟩ := exists_ends_of_terminal hfinal limit stage
    exact ⟨[], final, [], stage, outcome, rfl, .nil, he⟩
  | cons t front ih =>
    cases hr : stage.read limit t with
    | more next =>
      obtain ⟨read, u, rest, last, outcome, hsplit, hl, he⟩ := ih next
      exact ⟨t :: read, u, rest, last, outcome, by rw [List.cons_append, hsplit, List.cons_append], .cons hr hl, he⟩
    | done selection => exact ⟨[], t, front ++ [final], stage, .ok selection, rfl, .nil, by rw [hr]; exact .done⟩
    | failed e => exact ⟨[], t, front ++ [final], stage, .error e, rfl, .nil, by rw [hr]; exact .failed⟩

end Stage

/-- There is a token with which the reading of a query ends. -/
theorem Cursor.exists_leads {c : Cursor} (h : c.Placed) (limit : Nat) (stage : Stage) :
    ∃ read t rest last outcome, c.tokens = read ++ t :: rest ∧ Stage.Leads limit stage read last ∧
      (last.read limit t).Ends outcome := by
  obtain ⟨front, t, htokens, ht, _⟩ := Cursor.exists_tokens_eq_append h
  exact Stage.exists_leads limit stage ⟨front, t, htokens, ht⟩

end RecordQuery
