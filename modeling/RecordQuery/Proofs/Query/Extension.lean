import RecordQuery.Proofs.Query.Derivation
import RecordQuery.Proofs.Token.Automaton

/-!
# Queries that go on

What is read is decided by the text up to the place where reading ends. A complete query stays one if only blanks follow, and
is in error at what follows otherwise. An error that a token or a character caused (`ParseError.IsSettled`), rather than the end
of the text, stays whatever follows: the scanner moves on a longer text as it does on the shorter one, except that it may look
further once nothing but the end is left (`Move.extend`). In the same way the tokens that were cut stay as they are, all but the
last one, which is the end of the text or a fault (`Scanner.tokens_append`).
-/

namespace RecordQuery

open Text Grammar

/-- An error that was not caused by the end of the text. -/
def ParseError.IsSettled : ParseError → Prop
  | .scan fault _ => fault = .openBrace
  | .noRoot found => found = .dot ∨ found = .leftParen
  | .unexpectedEnd _ => False
  | .unexpected _ _ _ _ | .detached _ _ | .tooDeep _ => True

/-! ## Longer texts -/

/-- The same place in a text that goes on. -/
def Cursor.extend (c : Cursor) (r : List Char) : Cursor := { c with ahead := c.ahead ++ r }

/-- A place with nothing ahead but the end of the text or a field group that is not closed. -/
def Cursor.Spent (c : Cursor) : Prop := ∃ t, Stop c t ∧ (t.kind = .endOfInput ∨ t.kind = .error .fieldName)

/-- At the end of a text that breaks off in a field group nothing is left. -/
theorem Cursor.spent_fields (inFields : Bool) (before : List Char) : Cursor.Spent ⟨.fields, inFields, before, []⟩ :=
  ⟨_, .fields (avoids_nil fieldStops), .inr rfl⟩

/-- On a text that goes on, a move is the same, unless it leads to where the shorter text has nothing left. -/
theorem Move.extend {c c' : Cursor} {o : Option Token} (h : Move c o c') (r : List Char) :
    Move (c.extend r) o (c'.extend r) ∨ c'.Spent ∧ ∃ c'', Move (c.extend r) o c'' := by
  cases h with
  | @objectName inFields before name rest c hn hc =>
    refine .inl ?_
    simp only [Cursor.extend, List.append_assoc, List.cons_append]
    exact .objectName hn hc
  | dot => exact .inl .dot
  | functionName hn =>
    refine .inl ?_
    simp only [Cursor.extend, List.append_assoc, List.cons_append]
    exact .functionName hn
  | leftParen => exact .inl .leftParen
  | argument ht =>
    refine .inl ?_
    simp only [Cursor.extend, List.append_assoc, List.cons_append]
    exact .argument ht
  | @rightParen inFields before layout rest hl hr =>
    by_cases hne : rest = []
    · -- the layout may go on in the longer text, and the move there skips all of it
      subst hne
      obtain ⟨layout', rest', htext, hl', hr'⟩ := exists_layout_split (layout ++ [] ++ r)
      refine .inr ⟨?_, ?_⟩
      · cases inFields with
        | false => exact ⟨_, .unopened, .inl rfl⟩
        | true => exact ⟨_, .unclosed, .inr rfl⟩
      · rw [Cursor.extend, List.cons_append, htext]
        exact ⟨_, .rightParen hl' hr'⟩
    · refine .inl ?_
      have hmode : Scanner.Mode.afterParen rest = Scanner.Mode.afterParen (rest ++ r) := by
        rw [Scanner.Mode.afterParen, Scanner.Mode.afterParen, List.head?_append_of_ne_nil rest hne]
      simp only [Cursor.extend, List.append_assoc, List.cons_append, hmode]
      exact .rightParen hl (hr.append hne r)
  | @leftBrace inFields before layout rest hl hr =>
    by_cases hne : rest = []
    · subst hne
      obtain ⟨layout', rest', htext, hl', hr'⟩ := exists_layout_split (layout ++ [] ++ r)
      refine .inr ⟨Cursor.spent_fields _ _, ?_⟩
      rw [Cursor.extend, List.cons_append, htext]
      exact ⟨_, .leftBrace hl' hr'⟩
    · refine .inl ?_
      simp only [Cursor.extend, List.append_assoc, List.cons_append]
      exact .leftBrace hl (hr.append hne r)
  | field hn hc hp =>
    refine .inl ?_
    simp only [Cursor.extend, List.append_assoc, List.cons_append]
    exact .field hn hc hp
  | fieldFunction hn =>
    refine .inl ?_
    simp only [Cursor.extend, List.append_assoc, List.cons_append]
    exact .fieldFunction hn
  | @comma inFields before layout rest hl hr =>
    by_cases hne : rest = []
    · subst hne
      obtain ⟨layout', rest', htext, hl', hr'⟩ := exists_layout_split (layout ++ [] ++ r)
      refine .inr ⟨Cursor.spent_fields _ _, ?_⟩
      rw [Cursor.extend, List.cons_append, htext]
      exact ⟨_, .comma hl' hr'⟩
    · refine .inl ?_
      simp only [Cursor.extend, List.append_assoc, List.cons_append]
      exact .comma hl (hr.append hne r)
  | @rightBrace inFields before rest =>
    by_cases hb : Blank rest
    · rw [Phase.afterBrace_of_blank hb]
      exact .inr ⟨⟨_, .ending, .inl rfl⟩, _, .rightBrace⟩
    · refine .inl ?_
      have hb' : ¬Blank (rest ++ r) := fun h => hb (blank_append.mp h).1
      rw [Phase.afterBrace_of_not_blank hb, ← Phase.afterBrace_of_not_blank hb']
      exact .rightBrace

/-- The tokens that go on, without the end of the text and a fault. -/
def Token.nonterminals (tokens : List Token) : List Token := tokens.filter fun t => !t.kind.isTerminal

/-- The last token is none of those that go on. -/
theorem Cursor.nonterminals_of_stop {c : Cursor} {t : Token} (h : Stop c t) : Token.nonterminals c.tokens = [] := by
  rw [tokens_of_stop h, Token.nonterminals, List.filter_eq_nil_iff]
  simp [h.last.terminal]

/-- All tokens before the last one go on. -/
theorem Cursor.nonterminals_of_move {c c' : Cursor} {o : Option Token} (h : Move c o c') :
    Token.nonterminals c.tokens = o.toList ++ Token.nonterminals c'.tokens := by
  rw [tokens_of_move h, Token.nonterminals, List.filter_append]
  refine congrArg (· ++ Token.nonterminals c'.tokens) ?_
  cases o with
  | none => rfl
  | some t => simp [h.next.not_terminal]

/-- The tokens from a place on, without the last one, stay as they are when the text goes on. -/
theorem Cursor.nonterminals_isPrefix_extend {c : Cursor} (hc : c.Placed) (r : List Char) :
    Token.nonterminals c.tokens <+: (c.extend r).tokens := by
  refine scan_induction (P := fun c => Token.nonterminals c.tokens <+: (c.extend r).tokens) ?stop ?move c hc
  case stop =>
    intro c t hs
    rw [nonterminals_of_stop hs]
    exact List.nil_prefix
  case move =>
    intro c o c' hm ih
    rw [nonterminals_of_move hm]
    rcases hm.extend r with hm' | ⟨⟨t, hs, _⟩, c'', hm'⟩
    · rw [tokens_of_move hm']
      exact (List.prefix_append_right_inj _).mpr ih
    · -- the shorter text has nothing left but its last token, whatever the longer one goes on with
      rw [tokens_of_move hm', nonterminals_of_stop hs, List.append_nil]
      exact List.prefix_append _ _

theorem Cursor.ofChars_append (s r : String) : ofChars (s ++ r).toList = (ofChars s.toList).extend r.toList := by
  rw [String.toList_append]
  rfl

/-- Tokens do not change when a text goes on: those of the shorter text, without its end or fault, come first in the longer one. -/
theorem Scanner.tokens_append (s r : String) :
    ((ofString s).tokens.filter fun t => !t.kind.isTerminal) <+: (ofString (s ++ r)).tokens := by
  have h := Cursor.nonterminals_isPrefix_extend (Cursor.placed_ofChars s.toList) r.toList
  rw [← Cursor.ofChars_append] at h
  exact h

/-- The end of the text settles nothing. -/
theorem Stage.read_endOfInput {limit : Nat} {stage : Stage} {t : Token} (ht : t.kind = .endOfInput) :
    (∃ selection, stage.read limit t = .done selection) ∨ ∃ e, stage.read limit t = .failed e ∧ ¬e.IsSettled := by
  cases stage with
  | complete selection =>
    refine .inl ⟨selection, ?_⟩
    simp only [read, readToken, ht, if_true]
  | start =>
    refine .inr ⟨.noRoot .endOfInput, ?_, by simp [ParseError.IsSettled]⟩
    simp only [read, readToken, ht, reduceCtorEq, if_false]
  | fields group outer =>
    refine .inr ⟨.unexpectedEnd .rightBrace, ?_, id⟩
    simp only [read, readToken, readField, ht]
  | _ =>
    right
    simp [read, readToken, ht, ParseError.ofToken, ParseError.IsSettled]

/-- Where nothing is left, the outcome is no settled error. -/
theorem Stage.not_settled_of_spent {limit : Nat} {stage : Stage} {c : Cursor} {e : ParseError} (hc : c.Spent)
    (h : stage.outcome limit c = .error e) : ¬e.IsSettled := by
  obtain ⟨t, hstop, ht | ht⟩ := hc
  · rw [outcome_of_stop hstop] at h
    rcases @read_endOfInput limit stage t ht with ⟨selection, hr⟩ | ⟨e', hr, he⟩
    · rw [hr] at h
      cases h
    · rw [hr] at h
      cases h
      exact he
  · have hr : stage.read limit t = .failed (.scan .fieldName t.start) := by
      simp only [read, ht]
    rw [outcome_of_stop hstop, hr] at h
    cases h
    intro he
    cases he

/-- A settled error stays when the text goes on. -/
theorem Stage.outcome_extend_of_settled {limit : Nat} {c : Cursor} (hc : c.Placed) (r : List Char) :
    ∀ (stage : Stage) (e : ParseError), e.IsSettled → stage.outcome limit c = .error e →
      stage.outcome limit (c.extend r) = .error e := by
  refine Cursor.scan_induction (P := fun c => ∀ (stage : Stage) (e : ParseError), e.IsSettled →
    stage.outcome limit c = .error e → stage.outcome limit (c.extend r) = .error e) ?stop ?move c hc
  case stop =>
    intro c t hstop stage e he h
    cases hstop with
    | openBrace hb =>
      rw [outcome_of_fault (.openBrace hb)] at h
      exact (outcome_of_fault (.openBrace hb)).trans h
    | objectName ha => exact absurd he (not_settled_of_spent ⟨_, .objectName ha, .inl rfl⟩ h)
    | unopened => exact absurd he (not_settled_of_spent ⟨_, .unopened, .inl rfl⟩ h)
    | ending => exact absurd he (not_settled_of_spent ⟨_, .ending, .inl rfl⟩ h)
    | unclosed => exact absurd he (not_settled_of_spent ⟨_, .unclosed, .inr rfl⟩ h)
    | fields ha => exact absurd he (not_settled_of_spent ⟨_, .fields ha, .inr rfl⟩ h)
    | functionName ha =>
      rw [outcome_of_fault (.functionName ha)] at h
      cases h
      cases he
    | argument ha hr =>
      rw [outcome_of_fault (.argument ha hr)] at h
      cases h
      cases he
  case move =>
    intro c o c' hmove ih stage e he h
    rcases hmove.extend r with hmove' | ⟨hspent, c'', hmove'⟩
    · cases o with
      | none => exact (outcome_of_silent hmove').trans (ih stage e he ((outcome_of_silent hmove).symm.trans h))
      | some t =>
        rw [outcome_of_token hmove] at h
        rw [outcome_of_token hmove']
        exact Progress.andThen_eq_error h fun next hnext => ih next e he hnext
    · -- the shorter text has nothing left behind the token, so the token itself is what is wrong
      cases o with
      | none => exact absurd he (not_settled_of_spent hspent ((outcome_of_silent hmove).symm.trans h))
      | some t =>
        rw [outcome_of_token hmove] at h
        rw [outcome_of_token hmove']
        exact Progress.andThen_eq_error h fun next hnext => absurd he (not_settled_of_spent hspent hnext)

namespace Selection

/-- A complete query stays one if blanks follow, and is in error at what follows otherwise. -/
theorem parse_append_of_ok {s : String} {t : Selection} {limit : Nat} (h : parse s limit = .ok t) (r : String) :
    (Blank r.toList ∧ parse (s ++ r) limit = .ok t) ∨
      (¬Blank r.toList ∧ ∃ e : ParseError, parse (s ++ r) limit = .error e ∧ e.IsTrailing) := by
  obtain ⟨n, hn, hquery⟩ := query_of_parse h
  generalize htext : s.toList = text at hquery
  obtain @⟨name, qualifier, body, trailing, argument, calls, es, n, hname, hq, hb, ht⟩ := hquery
  have hlonger : (s ++ r).toList = name ++ (qualifier ++ '{' :: (body ++ '}' :: (trailing ++ r.toList))) := by
    simp only [String.toList_append, htext, List.append_assoc, List.cons_append]
  rw [parse_of_braces hname hq hb hn hlonger]
  by_cases hr : Blank r.toList
  · exact .inl ⟨hr, Phase.outcome_complete_of_blank (blank_append.mpr ⟨ht, hr⟩) _⟩
  · exact .inr ⟨hr, Phase.outcome_complete_of_not_blank (fun h => hr (blank_append.mp h).2) _⟩

/-- A settled error stays whatever follows. -/
theorem parse_append_of_settled {s : String} {e : ParseError} {limit : Nat} (h : parse s limit = .error e)
    (he : e.IsSettled) (r : String) : parse (s ++ r) limit = .error e := by
  rw [parse_eq_outcome, Cursor.ofChars_append]
  exact Stage.outcome_extend_of_settled (Cursor.placed_ofChars _) _ _ _ he h

/-- When a text goes on: a query is read as before if it goes on with blanks and is in error at what follows otherwise, and
a settled error is the same. -/
theorem parse_append (s r : String) (limit : Nat) :
    (∀ t, parse s limit = .ok t →
        (Blank r.toList → parse (s ++ r) limit = .ok t) ∧
          (¬Blank r.toList → ∃ e : ParseError, parse (s ++ r) limit = .error e ∧ e.IsTrailing)) ∧
      ∀ e : ParseError, parse s limit = .error e → e.IsSettled → parse (s ++ r) limit = .error e := by
  refine ⟨fun t h => ?_, fun e h he => parse_append_of_settled h he r⟩
  rcases parse_append_of_ok h r with ⟨hb, hsame⟩ | ⟨hb, herror⟩
  · exact ⟨fun _ => hsame, fun hb' => absurd hb hb'⟩
  · exact ⟨fun hb' => absurd hb' hb, fun _ => herror⟩

/-- A query that goes on with a line feed, one that goes on with a word, and a group without an owner that goes on. -/
theorem parse_append_instances :
    parse ("a()\x7bb\x7d" ++ "\n") 1 = .ok (.group ⟨"a", none, []⟩ [.leaf ⟨"b", none, []⟩]) ∧
      (∃ e : ParseError, parse ("a()\x7bb\x7d" ++ "c") 1 = .error e ∧ e.IsTrailing) ∧
      parse ("a()\x7b\x7b" ++ "b\x7d\x7d") 1 = .error (.detached .leftBrace 4) := by
  have hquery : parse "a()\x7bb\x7d" 1 = .ok (.group ⟨"a", none, []⟩ [.leaf ⟨"b", none, []⟩]) := by decide +kernel
  have herror : parse "a()\x7b\x7b" 1 = .error (.detached .leftBrace 4) := by decide +kernel
  refine ⟨((parse_append _ "\n" 1).1 _ hquery).1 ?_, ((parse_append _ "c" 1).1 _ hquery).2 ?_,
    (parse_append _ "b\x7d\x7d" 1).2 _ herror trivial⟩
  · exact all_isBlank_iff.mp (by decide)
  · exact fun h => absurd (all_isBlank_iff.mpr h) (by decide)

end Selection

end RecordQuery
