import RecordQuery.Proofs.Token.Scan

/-!
# The scanner as an automaton

A move or a stop without the texts is a transition between modes with the kind of the token that it cuts (`Scanner.Mode.Next`,
`Scanner.Mode.Last`). A mode that looks for a name may cut nothing, and then the mark behind the name comes first: this is how a
parenthesis comes to follow a dot. What holds of the tokens of all moves and stops holds of all tokens of a scan
(`Cursor.forall_mem_tokens`); the last token, and no other, is terminal.
-/

namespace RecordQuery

open Text

namespace Scanner

/-- A mode, the kind of the token that a move cuts in it, if any, and the mode to which the move leads. -/
inductive Mode.Next : Mode → Option TokenKind → Mode → Prop where
  | objectName {o : Option TokenKind} {m : Mode} (ho : o = none ∨ o = some .objectName)
      (hm : m = .leftParen ∨ m = .dot) : Next .objectName o m
  | dot : Next .dot (some .dot) .functionName
  | functionName {o : Option TokenKind} (ho : o = none ∨ o = some .function) : Next .functionName o .leftParen
  | leftParen : Next .leftParen (some .leftParen) .argument
  | argument {o : Option TokenKind} (ho : o = none ∨ o = some .argument) : Next .argument o .rightParen
  | rightParen {m : Mode} (hm : m = .dot ∨ m = .leftBrace) : Next .rightParen (some .rightParen) m
  | leftBrace : Next .leftBrace (some .leftBrace) .fields
  | field {o : Option TokenKind} {m : Mode} (ho : o = none ∨ o = some .fieldName)
      (hm : m = .rightBrace ∨ m = .leftBrace ∨ m = .comma ∨ m = .dot) : Next .fields o m
  | fieldFunction {o : Option TokenKind} (ho : o = none ∨ o = some .function) : Next .fields o .leftParen
  | comma : Next .comma (some .comma) .fields
  | rightBrace {m : Mode} (hm : m = .ending ∨ m = .fields) : Next .rightBrace (some .rightBrace) m

/-- A mode and the kind of the last token that is cut in it. -/
inductive Mode.Last : Mode → TokenKind → Prop where
  | objectName : Last .objectName .endOfInput
  | functionName : Last .functionName (.error .functionName)
  | argument : Last .argument (.error .argument)
  | unopened : Last .leftBrace .endOfInput
  | unclosed : Last .leftBrace (.error .fieldName)
  | openBrace : Last .leftBrace (.error .openBrace)
  | fields : Last .fields (.error .fieldName)
  | ending : Last .ending .endOfInput

variable {m m' : Mode} {o : Option TokenKind} {k : TokenKind}

/-- The name of the requested record is looked for at the start only. -/
theorem Mode.Next.ne_objectName (h : Mode.Next m o m') : m' ≠ .objectName := by
  rintro rfl
  cases h <;> simp_all

/-- The name of the requested record is cut at the start only. -/
theorem Mode.Next.eq_objectName (h : Mode.Next m (some .objectName) m') : m = .objectName := by
  cases h <;> simp_all

/-- A token behind which the scan goes on is not terminal. -/
theorem Mode.Next.not_terminal (h : Mode.Next m (some k) m') : k.isTerminal = false := by
  cases h <;> simp_all [TokenKind.isTerminal]

theorem Mode.Last.terminal (h : Mode.Last m k) : k.isTerminal = true := by
  cases h <;> rfl

/-- A token that is cut is of the kind that the move can cut. -/
theorem Mode.kind_eq {k' : TokenKind} (h : some k = none ∨ some k = some k') : k = k' := by
  simpa using h

/-- A mark that ends a name in a field group, parentheses apart, is cut off in one of four modes. -/
theorem delimiterMode_cases (c : Char) :
    delimiterMode c = .rightBrace ∨ delimiterMode c = .leftBrace ∨ delimiterMode c = .comma ∨ delimiterMode c = .dot := by
  unfold delimiterMode
  split_ifs <;> simp

end Scanner

/-! ## Moves and stops are transitions -/

namespace Token

/-- A text as it stands is cut as a token of its kind, or not at all. -/
theorem verbatim?_kind (kind : TokenKind) (before text : List Char) :
    (verbatim? kind before text).map Token.kind = none ∨ (verbatim? kind before text).map Token.kind = some kind := by
  unfold verbatim?
  split <;> simp

theorem trimmed?_kind (kind : TokenKind) (before text : List Char) :
    (trimmed? kind before text).map Token.kind = none ∨ (trimmed? kind before text).map Token.kind = some kind := by
  unfold trimmed?
  split <;> simp

end Token

/-- A move, without its texts, is a transition between modes. -/
theorem Move.next {c c' : Cursor} {o : Option Token} (h : Move c o c') :
    Scanner.Mode.Next c.mode (o.map Token.kind) c'.mode := by
  cases h with
  | objectName hn hc =>
    refine .objectName (Token.verbatim?_kind _ _ _) ?_
    split
    · exact .inl rfl
    · exact .inr rfl
  | dot => exact .dot
  | functionName hn => exact .functionName (Token.trimmed?_kind _ _ _)
  | leftParen => exact .leftParen
  | argument ht => exact .argument (Token.verbatim?_kind _ _ _)
  | rightParen hl hr =>
    refine .rightParen ?_
    unfold Scanner.Mode.afterParen
    split
    · exact .inl rfl
    · exact .inr rfl
  | leftBrace hl hr => exact .leftBrace
  | field hn hc hp => exact .field (Token.trimmed?_kind _ _ _) (Scanner.delimiterMode_cases _)
  | fieldFunction hn => exact .fieldFunction (Token.trimmed?_kind _ _ _)
  | comma hl hr => exact .comma
  | rightBrace =>
    refine .rightBrace ?_
    unfold Scanner.Mode.afterBrace
    split
    · exact .inl rfl
    · exact .inr rfl

theorem Stop.last {c : Cursor} {t : Token} (h : Stop c t) : Scanner.Mode.Last c.mode t.kind := by
  cases h with
  | objectName ht => exact .objectName
  | functionName ht => exact .functionName
  | argument ht hr => exact .argument
  | unopened => exact .unopened
  | unclosed => exact .unclosed
  | openBrace hc => exact .openBrace
  | fields ht => exact .fields
  | ending => exact .ending

/-! ## All tokens of a scan -/

namespace Cursor

variable {c : Cursor}

/-- What holds of the tokens that moves and stops cut holds of all tokens from a place on. -/
theorem forall_mem_tokens {P : Token → Prop} (move : ∀ c t c', Move c (some t) c' → P t) (stop : ∀ c t, Stop c t → P t)
    (h : c.Placed) : ∀ t ∈ c.tokens, P t := by
  refine scan_induction (P := fun c => ∀ t ∈ c.tokens, P t) ?stop ?move c h
  case stop =>
    intro c t hs
    rw [tokens_of_stop hs]
    exact List.forall_mem_singleton.mpr (stop c t hs)
  case move =>
    intro c o c' hm ih
    rw [tokens_of_move hm]
    cases o with
    | none => exact ih
    | some t => exact List.forall_mem_cons.mpr ⟨move c t c' hm, ih⟩

/-- The last token, and no other, is terminal. -/
theorem exists_tokens_eq_append (h : c.Placed) :
    ∃ ts last, c.tokens = ts ++ [last] ∧ last.kind.isTerminal = true ∧ ∀ t ∈ ts, t.kind.isTerminal = false := by
  refine scan_induction (P := fun c => ∃ ts last, c.tokens = ts ++ [last] ∧ last.kind.isTerminal = true ∧
    ∀ t ∈ ts, t.kind.isTerminal = false) ?stop ?move c h
  case stop =>
    intro c t hs
    exact ⟨[], t, tokens_of_stop hs, hs.last.terminal, List.forall_mem_nil _⟩
  case move =>
    rintro c o c' hm ⟨ts, last, htokens, hlast, hts⟩
    rw [tokens_of_move hm, htokens]
    cases o with
    | none => exact ⟨ts, last, rfl, hlast, hts⟩
    | some t => exact ⟨t :: ts, last, rfl, hlast, List.forall_mem_cons.mpr ⟨hm.next.not_terminal, hts⟩⟩

/-- Behind a terminal token there is none. -/
theorem eq_nil_of_terminal {read rest : List Token} {t : Token} (h : c.Placed) (htokens : c.tokens = read ++ t :: rest)
    (ht : t.kind.isTerminal = true) : rest = [] := by
  obtain ⟨front, last, hfront, _, hnot⟩ := exists_tokens_eq_append h
  by_contra hrest
  have hmem : t ∈ front := by
    have hdrop : (read ++ t :: rest).dropLast = front := by
      rw [← htokens, hfront, List.dropLast_concat]
    rw [← hdrop, List.dropLast_append_of_ne_nil (List.cons_ne_nil t rest), List.dropLast_cons_of_ne_nil hrest]
    exact List.mem_append_right read List.mem_cons_self
  rw [hnot t hmem] at ht
  cases ht

/-- Past the start, no token is the name of the requested record. -/
theorem not_objectName_of_mode (h : c.Placed) (hmode : c.mode ≠ .objectName) : ∀ t ∈ c.tokens, t.kind ≠ .objectName := by
  refine scan_induction (P := fun c => c.mode ≠ .objectName → ∀ t ∈ c.tokens, t.kind ≠ .objectName) ?stop ?move c h hmode
  case stop =>
    intro c t hs _
    rw [tokens_of_stop hs]
    refine List.forall_mem_singleton.mpr fun hk => ?_
    have hterminal := hs.last.terminal
    rw [hk] at hterminal
    cases hterminal
  case move =>
    intro c o c' hm ih hmode
    rw [tokens_of_move hm]
    have hrest := ih hm.next.ne_objectName
    cases o with
    | none => exact hrest
    | some t =>
      refine List.forall_mem_cons.mpr ⟨fun hk => hmode ?_, hrest⟩
      have hnext : Scanner.Mode.Next c.mode (some t.kind) c'.mode := hm.next
      rw [hk] at hnext
      exact hnext.eq_objectName

/-- A query has a first token, and only this one may be the name of the requested record. -/
theorem exists_tokens_eq_cons (query : List Char) :
    ∃ t ts, (ofChars query).tokens = t :: ts ∧ ∀ u ∈ ts, u.kind ≠ .objectName := by
  rcases move_or_stop (placed_ofChars query) with ⟨o, c', hm⟩ | ⟨t, hs⟩
  · have hrest := not_objectName_of_mode hm.placed hm.next.ne_objectName
    rw [tokens_of_move hm]
    cases o with
    | some t => exact ⟨t, c'.tokens, rfl, hrest⟩
    | none =>
      obtain ⟨ts, last, htokens, _⟩ := exists_tokens_eq_append hm.placed
      cases hts : c'.tokens with
      | nil => exact absurd (htokens.symm.trans hts) (List.append_ne_nil_of_right_ne_nil ts (List.cons_ne_nil last []))
      | cons t ts =>
        rw [hts] at hrest
        exact ⟨t, ts, rfl, (List.forall_mem_cons.mp hrest).2⟩
  · exact ⟨t, [], tokens_of_stop hs, List.forall_mem_nil _⟩

end Cursor

/-! ## Texts that the kind tells -/

/-- The text of all tokens of a kind, where the kind tells it: a mark stands for itself and a fault has a message. -/
def TokenKind.text? : TokenKind → Option String
  | .dot => some "."
  | .leftParen => some "("
  | .rightParen => some ")"
  | .leftBrace => some "\x7b"
  | .comma => some ","
  | .rightBrace => some "\x7d"
  | .error fault => some fault.message
  | _ => none

/-- The text of a name is not told by its kind. -/
theorem TokenKind.text?_of_name {kind : TokenKind} {o : Option Token} {t : Token}
    (h : o.map Token.kind = none ∨ o.map Token.kind = some kind) (ho : some t = o) (hk : kind.text? = none) :
    t.kind.text? = none := by
  subst ho
  rcases h with h | h
  · cases h
  · cases h
    exact hk

/-- A mark is cut with the text that its kind tells. -/
theorem Move.text {c c' : Cursor} {t : Token} (h : Move c (some t) c') (w : String) (hw : t.kind.text? = some w) :
    t.text = w := by
  generalize ho : some t = o at h
  have hname {kind : TokenKind} (hkind : o.map Token.kind = none ∨ o.map Token.kind = some kind)
      (hk : kind.text? = none) : t.text = w := by
    rw [TokenKind.text?_of_name hkind ho hk] at hw
    cases hw
  cases h with
  | objectName hn hc => exact hname (Token.verbatim?_kind .objectName _ _) rfl
  | functionName hn => exact hname (Token.trimmed?_kind .function _ _) rfl
  | argument ht => exact hname (Token.verbatim?_kind .argument _ _) rfl
  | field hn hc hp => exact hname (Token.trimmed?_kind .fieldName _ _) rfl
  | fieldFunction hn => exact hname (Token.trimmed?_kind .function _ _) rfl
  | dot | leftParen | rightParen | leftBrace | comma | rightBrace =>
    cases ho
    cases hw
    rfl

theorem Stop.text {c : Cursor} {t : Token} (h : Stop c t) (w : String) (hw : t.kind.text? = some w) : t.text = w := by
  cases h <;> cases hw <;> rfl

/-- Marks and faults have the text that their kind tells. -/
theorem Cursor.text_of_mem_tokens {c : Cursor} (h : c.Placed) {t : Token} (ht : t ∈ c.tokens) {w : String}
    (hw : t.kind.text? = some w) : t.text = w :=
  forall_mem_tokens (P := fun t => ∀ w, t.kind.text? = some w → t.text = w) (fun _ _ _ hm => hm.text)
    (fun _ _ hs => hs.text) h t ht w hw

end RecordQuery
