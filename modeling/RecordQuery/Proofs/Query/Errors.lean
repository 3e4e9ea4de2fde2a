import RecordQuery.Proofs.Query.Ending
import RecordQuery.Proofs.Token.Coverage

/-!
# The errors of queries

Which errors a query can have, and where they point. At every stage of the reader the scanner is in one of a few modes
(`Stage.modes`), which moves keep, so few kinds of tokens can come at each stage: behind a name comes a dot or a parenthesis,
behind an argument its right parenthesis. An error points to the token with which reading ends, and tokens stand in the query
where their spans say.
-/

namespace RecordQuery

open Text

/-- An offset is between two characters of a text. -/
def Text.IsBoundary (text : String) (offset : Nat) : Prop := ∃ before after, text = before ++ after ∧ offset = before.utf8ByteSize

/-- A word stands between two characters. -/
theorem Text.StandsAt.isBoundary {text word : String} {start stop : Nat} (h : StandsAt text word start stop) :
    IsBoundary text start := by
  obtain ⟨before, after, rfl, hstart, _⟩ := h
  exact ⟨before, word ++ after, String.append_assoc .., hstart⟩

/-- A word that ends behind its start is not empty. -/
theorem Text.StandsAt.ne_empty {text word : String} {start stop : Nat} (h : StandsAt text word start stop)
    (hlt : start < stop) : word ≠ "" := by
  rintro rfl
  obtain ⟨before, after, _, rfl, rfl⟩ := h
  rw [String.append_empty] at hlt
  exact Nat.lt_irrefl _ hlt

namespace ParseError

/-- The errors that a query can have under a limit. -/
def Possible (limit : Nat) : ParseError → Prop
  | scan fault _ =>
    fault.message ∈ ["illegal function name", "illegal function argument", "illegal left curly", "illegal fieldname"]
  | noRoot found => found = .endOfInput ∨ found = .dot ∨ found = .leftParen
  | unexpected expected found _ _ =>
    (expected = .functionName ∨ expected = .fieldOrRightBrace) ∧ found = .leftParen ∨
      expected = .endOfInput ∧
        found ∈ [TokenKind.fieldName, .function, .leftParen, .leftBrace, .rightBrace, .comma, .dot]
  | unexpectedEnd expected => expected = .leftBrace ∨ expected = .rightBrace
  | detached found _ => found = .dot ∨ found = .leftBrace
  | tooDeep n => n = limit

/-- Each fault of the scan is an error that a query can have. -/
theorem possible_scan (limit : Nat) (fault : ScanFault) (offset : Nat) : (scan fault offset).Possible limit := by
  cases fault <;> simp [Possible, ScanFault.message]

/-- The error points to what it is about: a place between two characters, a text that stands there, or a mark that does. -/
def PointsInto (query : String) : ParseError → Prop
  | scan _ offset => IsBoundary query offset
  | unexpected _ _ text offset => text ≠ "" ∧ ∃ stop, StandsAt query text offset stop
  | detached found offset =>
    (found = .dot → StandsAt query "." offset (offset + 1)) ∧
      (found = .leftBrace → StandsAt query "\x7b" offset (offset + 1))
  | _ => True

end ParseError

/-- The modes in which the scanner can be while the reader is at a stage. Where a name may be missing, these are the modes at
the name and at the mark behind it. -/
def Stage.modes : Stage → List Scanner.Mode
  | .start => [.objectName, .leftParen, .dot]
  | .named _ => [.leftParen, .dot]
  | .callName _ _ => [.functionName, .leftParen]
  | .leftParen _ _ _ => [.leftParen]
  | .argument _ _ _ => [.argument, .rightParen]
  | .rightParen _ _ _ _ => [.rightParen]
  | .root _ => [.dot, .leftBrace]
  | .fields _ _ | .complete _ => [.fields, .leftParen, .rightBrace, .leftBrace, .comma, .dot, .ending]

/-- The token leads on to a stage of which this is a mode, or it completes the query, or it causes an error that a query can
have. -/
def Progress.Fits (limit : Nat) (m : Scanner.Mode) : Progress → Prop
  | .more next => m ∈ next.modes
  | .done _ => True
  | .failed e => e.Possible limit

namespace Stage

variable {limit : Nat} {stage : Stage} {m m' : Scanner.Mode} {t : Token} {e : ParseError}

/-! ## Steps keep the modes -/

/-- Behind an argument or a call the scanner is at a dot or at a left brace. -/
theorem mem_modes_resume (head : OpenHead) (groups : List OpenGroup) (hm : m = .dot ∨ m = .leftBrace) :
    m ∈ (resume head groups).modes := by
  cases groups <;> rcases hm with rfl | rfl <;> simp [resume, modes]

/-- Behind a field group the scanner goes on in the one around it, or the query ends. -/
theorem mem_modes_leaveGroup (group : OpenGroup) (outer : List OpenGroup) (hm : m = .ending ∨ m = .fields) :
    m ∈ (leaveGroup group outer).modes := by
  cases outer <;> rcases hm with rfl | rfl <;> simp [leaveGroup, modes]

theorem fits_openGroup (limit : Nat) (owner : Head) (outer : List OpenGroup) :
    (openGroup limit owner outer).Fits limit .fields := by
  unfold openGroup
  split
  · exact List.mem_cons_self
  · rfl

/-- A move without a token leads to a mode of the same stage. -/
theorem mem_modes_of_silent (hm : m ∈ stage.modes) (h : m.Next none m') : m' ∈ stage.modes := by
  cases h with
  | objectName _ hm' =>
    cases stage with
    | start => rcases hm' with rfl | rfl <;> decide
    | _ => simp [modes] at hm
  | functionName =>
    cases stage with
    | callName => exact List.mem_cons_of_mem _ List.mem_cons_self
    | _ => simp [modes] at hm
  | argument =>
    cases stage with
    | argument => exact List.mem_cons_of_mem _ List.mem_cons_self
    | _ => simp [modes] at hm
  | field _ hm' =>
    cases stage with
    | fields | complete => rcases hm' with rfl | rfl | rfl | rfl <;> simp [modes]
    | _ => simp [modes] at hm
  | fieldFunction =>
    cases stage with
    | fields | complete => simp [modes]
    | _ => simp [modes] at hm

/-- What a token inside a field group leads to. -/
theorem fits_readField {group : OpenGroup} {outer : List OpenGroup} (hm : m ∈ (fields group outer).modes)
    (h : m.Next (some t.kind) m') : (readField limit group outer t).Fits limit m' := by
  obtain ⟨kind, text, start, stop⟩ := t
  cases h with
  | dot =>
    cases hc : group.current with
    | some head => simp [readField, hc, Progress.Fits, modes]
    | none => simp [readField, hc, Progress.Fits, ParseError.Possible]
  | leftBrace =>
    cases hc : group.current with
    | some head =>
      simp only [readField, hc]
      exact fits_openGroup limit head.close (group :: outer)
    | none => simp [readField, hc, Progress.Fits, ParseError.Possible]
  | leftParen => simp [readField, Progress.Fits, ParseError.ofToken, ParseError.Possible]
  | comma => exact List.mem_cons_self
  | rightBrace hm' => exact mem_modes_leaveGroup group outer hm'
  | field ho hm' =>
    cases Scanner.Mode.kind_eq ho
    rcases hm' with rfl | rfl | rfl | rfl <;> simp [readField, Progress.Fits, modes]
  | fieldFunction ho =>
    cases Scanner.Mode.kind_eq ho
    exact List.mem_cons_self
  | objectName | functionName | argument | rightParen => simp [modes] at hm

/-- Behind the end of the outermost field group no token fits. -/
theorem fits_readComplete {selection : Selection} (hm : m ∈ (complete selection).modes) (h : m.Next (some t.kind) m') :
    ((complete selection).readToken limit t).Fits limit m' := by
  obtain ⟨kind, text, start, stop⟩ := t
  cases h with
  | dot | leftBrace | leftParen | comma | rightBrace =>
    simp [readToken, Progress.Fits, ParseError.ofToken, ParseError.Possible]
  | field ho | fieldFunction ho =>
    cases Scanner.Mode.kind_eq ho
    simp [readToken, Progress.Fits, ParseError.ofToken, ParseError.Possible]
  | objectName | functionName | argument | rightParen => simp [modes] at hm

/-- A token that a move cuts leads to a stage with the mode behind the move, or to an error that a query can have. -/
theorem fits_readToken (hm : m ∈ stage.modes) (h : m.Next (some t.kind) m') :
    (stage.readToken limit t).Fits limit m' := by
  cases stage with
  | fields group outer => exact fits_readField hm h
  | complete selection => exact fits_readComplete hm h
  | start =>
    obtain ⟨kind, text, start, stop⟩ := t
    cases h with
    | objectName ho hm' =>
      cases Scanner.Mode.kind_eq ho
      rcases hm' with rfl | rfl <;> simp [readToken, Progress.Fits, modes]
    | dot | leftParen => simp [readToken, Progress.Fits, ParseError.Possible]
    | _ => simp [modes] at hm
  | named head =>
    obtain ⟨kind, text, start, stop⟩ := t
    cases h with
    | dot | leftParen => exact List.mem_cons_self
    | _ => simp [modes] at hm
  | callName head groups =>
    obtain ⟨kind, text, start, stop⟩ := t
    cases h with
    | functionName ho =>
      cases Scanner.Mode.kind_eq ho
      exact List.mem_cons_self
    | leftParen => simp [readToken, Progress.Fits, ParseError.ofToken, ParseError.Possible]
    | _ => simp [modes] at hm
  | leftParen slot head groups =>
    obtain ⟨kind, text, start, stop⟩ := t
    cases h with
    | leftParen => exact List.mem_cons_self
    | _ => simp [modes] at hm
  | argument slot head groups =>
    obtain ⟨kind, text, start, stop⟩ := t
    cases h with
    | argument ho =>
      cases Scanner.Mode.kind_eq ho
      exact List.mem_cons_self
    | rightParen hm' => exact mem_modes_resume _ groups hm'
    | _ => simp [modes] at hm
  | rightParen slot text head groups =>
    obtain ⟨kind, text, start, stop⟩ := t
    cases h with
    | rightParen hm' => exact mem_modes_resume _ groups hm'
    | _ => simp [modes] at hm
  | root head =>
    obtain ⟨kind, text, start, stop⟩ := t
    cases h with
    | dot => exact List.mem_cons_self
    | leftBrace => exact fits_openGroup limit head.close []
    | _ => simp [modes] at hm

/-- A token that a move cuts leads on to the mode behind the move or to an error that a query can have, a fault included. -/
theorem fits_read (hm : m ∈ stage.modes) (h : m.Next (some t.kind) m') : (stage.read limit t).Fits limit m' := by
  unfold read
  split
  · exact ParseError.possible_scan limit _ t.start
  · exact fits_readToken hm h

/-- The last token completes the query or leads to an error that a query can have. -/
theorem possible_of_last (hm : m ∈ stage.modes) (h : m.Last t.kind) (hr : stage.read limit t = .failed e) :
    e.Possible limit := by
  obtain ⟨kind, text, start, stop⟩ := t
  cases h with
  | functionName | argument | unclosed | openBrace | fields =>
    cases hr
    exact ParseError.possible_scan limit _ start
  | objectName =>
    cases stage with
    | start =>
      cases hr
      exact .inl rfl
    | _ => simp [modes] at hm
  | unopened =>
    cases stage with
    | root head =>
      cases hr
      exact .inl rfl
    | fields group outer =>
      cases hr
      exact .inr rfl
    | complete selection => cases hr
    | _ => simp [modes] at hm
  | ending =>
    cases stage with
    | fields group outer =>
      cases hr
      exact .inr rfl
    | complete selection => cases hr
    | _ => simp [modes] at hm

/-! ## Whole readings -/

/-- From a place with a mode of the stage, reading comes to no error but those that a query can have. -/
theorem possible_of_outcome {c : Cursor} (hc : c.Placed) :
    ∀ (stage : Stage) (e : ParseError), c.mode ∈ stage.modes → stage.outcome limit c = .error e → e.Possible limit := by
  refine Cursor.scan_induction (P := fun c => ∀ (stage : Stage) (e : ParseError), c.mode ∈ stage.modes →
    stage.outcome limit c = .error e → e.Possible limit) ?stop ?move c hc
  case stop =>
    intro c t hs stage e hm h
    obtain ⟨outcome, hends⟩ := exists_ends_of_terminal hs.last.terminal limit stage
    rw [outcome_of_stop hs] at h
    cases hr : stage.read limit t with
    | more next =>
      rw [hr] at hends
      cases hends
    | done selection =>
      rw [hr] at h
      cases h
    | failed e' =>
      rw [hr] at h
      cases h
      exact possible_of_last hm hs.last hr
  case move =>
    intro c o c' hmove ih stage e hm h
    cases o with
    | none =>
      rw [outcome_of_silent hmove] at h
      exact ih stage e (mem_modes_of_silent hm hmove.next) h
    | some t =>
      have hfits := @fits_read limit stage c.mode c'.mode t hm hmove.next
      rw [outcome_of_token hmove] at h
      cases hr : stage.read limit t with
      | more next =>
        rw [hr] at h hfits
        exact ih next e hfits h
      | done selection =>
        rw [hr] at h
        cases h
      | failed e' =>
        rw [hr] at h hfits
        cases h
        exact hfits

end Stage

/-! ## Where errors point -/

/-- The tokens of a query stand in it where their spans say, and cover something unless they are terminal. -/
theorem Token.standsAt_of_mem {query : String} {t : Token} (ht : t ∈ (Scanner.ofString query).tokens) :
    StandsAt query t.covered t.start t.stop ∧ (t.kind.isTerminal = false → t.start < t.stop) := by
  have hcovers : Covers [] query.toList (Scanner.ofString query).tokens :=
    Cursor.covers_tokens (Cursor.placed_ofChars query.toList)
  have hstands := hcovers.standsAt t ht
  rw [List.nil_append, String.ofList_toList] at hstands
  exact ⟨hstands, hcovers.start_lt_stop t ht⟩

/-- A token that is not terminal covers its text. -/
theorem Token.standsAt_text {query : String} {t : Token} (ht : t ∈ (Scanner.ofString query).tokens)
    (hk : t.kind.isTerminal = false) : StandsAt query t.text t.start t.stop ∧ t.text ≠ "" := by
  obtain ⟨hstands, hlt⟩ := standsAt_of_mem ht
  rw [covered, isFault_of_not_terminal hk] at hstands
  exact ⟨hstands, hstands.ne_empty (hlt hk)⟩

/-- A mark of a query stands where its token starts. -/
theorem Token.standsAt_mark {query : String} {t : Token} (ht : t ∈ (Scanner.ofString query).tokens)
    (hk : t.kind.isTerminal = false) {c : Char} (hc : c.utf8Size = 1) (hw : t.kind.text? = some (String.singleton c)) :
    StandsAt query (String.singleton c) t.start (t.start + 1) := by
  obtain ⟨hstands, _⟩ := standsAt_text ht hk
  rw [Cursor.text_of_mem_tokens (Cursor.placed_ofChars query.toList) ht hw] at hstands
  obtain ⟨before, after, hquery, hstart, hstop⟩ := hstands
  refine ⟨before, after, hquery, hstart, ?_⟩
  rw [hstart, String.utf8ByteSize_append, String.utf8ByteSize_singleton, hc]

/-- An error that a query can have points to the token that it is about. -/
theorem ParseError.Possible.pointsInto {query : String} {limit : Nat} {t : Token} {e : ParseError} (hp : e.Possible limit)
    (he : e.IsAbout t) (ht : t ∈ (Scanner.ofString query).tokens) : e.PointsInto query := by
  cases e with
  | scan fault offset =>
    obtain ⟨_, rfl⟩ := he
    exact (Token.standsAt_of_mem ht).1.isBoundary
  | unexpected expected found text offset =>
    obtain ⟨rfl, rfl, rfl⟩ := he
    have hk : t.kind.isTerminal = false := by
      rcases hp with ⟨_, hk⟩ | ⟨_, hk⟩
      · rw [hk]
        rfl
      · simp only [List.mem_cons, List.not_mem_nil, or_false] at hk
        rcases hk with hk | hk | hk | hk | hk | hk | hk <;> rw [hk] <;> rfl
    obtain ⟨hstands, hne⟩ := Token.standsAt_text ht hk
    exact ⟨hne, t.stop, hstands⟩
  | detached found offset =>
    obtain ⟨rfl, rfl⟩ := he
    refine ⟨fun hk => ?_, fun hk => ?_⟩
    · exact Token.standsAt_mark (c := '.') ht (by rw [hk]; rfl) (by decide) (by rw [hk]; rfl)
    · exact Token.standsAt_mark (c := '{') ht (by rw [hk]; rfl) (by decide) (by rw [hk]; rfl)
  | noRoot | unexpectedEnd | tooDeep => trivial

namespace Selection

/-- A query that cannot be read has one of the possible errors, and the error points to what it is about. -/
theorem possible_of_parse {query : String} {limit : Nat} {e : ParseError} (h : parse query limit = .error e) :
    e.Possible limit ∧ e.PointsInto query := by
  have hplaced := Cursor.placed_ofChars query.toList
  have hp : e.Possible limit := Stage.possible_of_outcome hplaced .start e List.mem_cons_self h
  obtain ⟨read, t, rest, last, outcome, htokens, hleads, hends⟩ := Cursor.exists_leads hplaced limit .start
  have houtcome : parse query limit = outcome := by
    rw [parse_eq_outcome, Stage.outcome, htokens, Stage.readAll_of_leads hleads hends]
  rw [houtcome] at h
  subst h
  cases hr : last.read limit t with
  | failed e' =>
    rw [hr] at hends
    cases hends
    have ht : t ∈ (Cursor.ofChars query.toList).tokens := by
      rw [htokens]
      exact List.mem_append_right read List.mem_cons_self
    exact ⟨hp, hp.pointsInto (Stage.isAbout_of_read hr) ht⟩
  | more | done =>
    rw [hr] at hends
    cases hends

/-- Blanks instead of the name of a call: the parenthesis is what is wrong. -/
theorem possible_of_parse_blankName :
    parse "é. (1)\x7ba\x7d" 1 = .error (.unexpected .functionName .leftParen "(" 4) ∧
      (ParseError.unexpected .functionName .leftParen "(" 4).Possible 1 ∧
      (ParseError.unexpected .functionName .leftParen "(" 4).PointsInto "é. (1)\x7ba\x7d" := by
  have h : parse "é. (1)\x7ba\x7d" 1 = .error (.unexpected .functionName .leftParen "(" 4) := by decide +kernel
  exact ⟨h, possible_of_parse h⟩

end Selection

end RecordQuery
