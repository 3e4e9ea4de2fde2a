import RecordQuery.Proofs.Token.Automaton
import RecordQuery.Proofs.Token.Coverage
import RecordQuery.Proofs.Token.Layout

/-!
# How long a scan takes

Looking for the next token goes in rounds: each is a step, and the first step that cuts a token off is the last
(`Scanner.Rounds`). A step that cuts nothing off leads to a mark, and from a mark the next step has a token, so wherever a scan
has come to, there are never more than two rounds (`Scanner.InPlace.exists_rounds`). Each token but the last covers a byte of
the query or more, the last one is the only one that is terminal, and behind it there are none (`Scanner.tokens_finite`).
-/

namespace RecordQuery

open Text

namespace Scanner

variable {s s' : Scanner} {m m' : Mode} {o : Option TokenKind} {n : Nat} {found : Option (Token × Scanner)}

/-! ## Marks -/

/-- A move that cuts nothing off leads to a mark. -/
theorem Mode.Next.isMark (h : Mode.Next m none m') : m'.IsMark := by
  generalize ho : (none : Option TokenKind) = o at h
  cases h with
  | objectName _ hm => rcases hm with rfl | rfl <;> trivial
  | functionName | argument | fieldFunction => trivial
  | field _ hm => rcases hm with rfl | rfl | rfl | rfl <;> trivial
  | dot | leftParen | rightParen | leftBrace | comma | rightBrace => cases ho

/-- From a mark a move cuts a token off. -/
theorem Mode.Next.exists_token (h : Mode.Next m o m') (hm : m.IsMark) : ∃ k, o = some k := by
  cases h with
  | objectName | functionName | argument | field | fieldFunction => cases hm
  | dot | leftParen | rightParen | leftBrace | comma | rightBrace => exact ⟨_, rfl⟩

/-! ## Where a scan comes to -/

/-- The scanner after a number of steps. -/
def walk (s : Scanner) : Nat → Scanner
  | 0 => s
  | n + 1 => (s.walk n).step.2

/-- A scanner that has stopped, or stands where it finds what it expects. -/
def InPlace (s : Scanner) : Prop := s.mode = none ∨ ∃ c : Cursor, c.Placed ∧ s = c.scanner

/-- At the start of a query a scanner is in place. -/
theorem inPlace_ofString (query : String) : (ofString query).InPlace :=
  .inr ⟨.ofChars query.toList, Cursor.placed_ofChars _, rfl⟩

/-- A scanner that has stopped does not go on. -/
theorem step_of_halted (h : s.mode = none) : s.step = (none, s) := by
  unfold step
  split <;> simp_all

/-- A step leads from a place to a place, or the scanner stops. -/
theorem InPlace.step (h : s.InPlace) : s.step.2.InPlace := by
  rcases h with hm | ⟨c, hc, rfl⟩
  · rw [step_of_halted hm]
    exact .inl hm
  · rcases Cursor.move_or_stop hc with ⟨o, c', hmove⟩ | ⟨t, hstop⟩
    · rw [Cursor.step_of_move hmove]
      exact .inr ⟨c', hmove.placed, rfl⟩
    · exact .inl (Cursor.step_of_stop hstop).2

theorem InPlace.walk (h : s.InPlace) (n : Nat) : (s.walk n).InPlace := by
  induction n with
  | zero => exact h
  | succ n ih => exact ih.step

/-! ## Rounds -/

/-- What comes of looking for a token, and the number of rounds that it takes. -/
inductive Rounds : Nat → Scanner → Option (Token × Scanner) → Prop where
  | halted {s : Scanner} (h : s.mode = none) : Rounds 0 s none
  | token {s s' : Scanner} {t : Token} (h : s.mode ≠ none) (hs : s.step = (some t, s')) : Rounds 1 s (some (t, s'))
  | silent {n : Nat} {s s' : Scanner} {found : Option (Token × Scanner)} (h : s.mode ≠ none) (hs : s.step = (none, s'))
      (hr : Rounds n s' found) : Rounds (n + 1) s found

/-- The next token is what the rounds come to. -/
theorem Rounds.next_eq (h : Rounds n s found) : s.next = found := by
  induction h with
  | halted h => exact next_of_halted h
  | token h hs => exact next_of_token h hs
  | silent h hs _ ih => exact (next_of_silent h hs).trans ih

/-- A move that cuts a token is one round. -/
theorem rounds_of_move {c c' : Cursor} {t : Token} (h : Move c (some t) c') : Rounds 1 c.scanner (some (t, c'.scanner)) :=
  .token nofun (Cursor.step_of_move h)

theorem rounds_of_stop {c : Cursor} {t : Token} (h : Stop c t) : Rounds 1 c.scanner (some (t, c.scanner.step.2)) :=
  .token nofun (Prod.ext (Cursor.step_of_stop h).1 rfl)

/-- From a mark one round is enough. -/
theorem exists_rounds_of_isMark {c : Cursor} (hc : c.Placed) (hm : c.mode.IsMark) : ∃ found, Rounds 1 c.scanner found := by
  rcases Cursor.move_or_stop hc with ⟨o, c', hmove⟩ | ⟨t, hstop⟩
  · obtain ⟨k, hk⟩ := hmove.next.exists_token hm
    obtain ⟨t, rfl, _⟩ := Option.map_eq_some_iff.mp hk
    exact ⟨_, rounds_of_move hmove⟩
  · exact ⟨_, rounds_of_stop hstop⟩

/-- Two rounds are always enough. -/
theorem InPlace.exists_rounds (h : s.InPlace) : ∃ n ≤ 2, Rounds n s s.next := by
  have hnext {n : Nat} {found : Option (Token × Scanner)} (hn : n ≤ 2) (hr : Rounds n s found) :
      ∃ n ≤ 2, Rounds n s s.next := ⟨n, hn, hr.next_eq ▸ hr⟩
  rcases h with hm | ⟨c, hc, rfl⟩
  · exact hnext (Nat.zero_le 2) (.halted hm)
  · rcases Cursor.move_or_stop hc with ⟨_ | t, c', hmove⟩ | ⟨t, hstop⟩
    · obtain ⟨found, hr⟩ := exists_rounds_of_isMark hmove.placed hmove.next.isMark
      exact hnext (Nat.le_refl 2) (.silent nofun (Cursor.step_of_move hmove) hr)
    · exact hnext (Nat.le_succ 1) (rounds_of_move hmove)
    · exact hnext (Nat.le_succ 1) (rounds_of_stop hstop)

/-! ## Whole scans -/

/-- The tokens come one by one, and then there are none. -/
theorem next_advance (s : Scanner) (n : Nat) : ((s.advance n).next).map Prod.fst = s.tokens[n]? := by
  have htokens := tokens_advance n s
  cases hn : (s.advance n).next with
  | none =>
    rw [tokens_of_next_none hn] at htokens
    rw [← List.head?_drop, ← htokens]
    rfl
  | some found =>
    rw [tokens_of_next_some hn] at htokens
    rw [← List.head?_drop, ← htokens]
    rfl

end Scanner

/-- There are no more tokens than bytes ahead, the last token apart. -/
theorem Covers.length_le {before ahead : List Char} {ts : List Token} (h : Covers before ahead ts) :
    ts.length ≤ byteLength ahead + 1 := by
  induction h with
  | @word before gap word rest kind ts hg hw hk _ ih =>
    have hpos := byteLength_pos hw
    simp only [List.length_cons, byteLength_append]
    omega
  | ending | fault => simp

/-- A scan ends: it has at most one token more than the query has bytes, the last of them and no other is terminal, they come in
turn when tokens are asked for, with nothing behind them, and wherever the scan has come to, a token is found in at most two
rounds. -/
theorem Scanner.tokens_finite (query : String) :
    (∃ ts last, (ofString query).tokens = ts ++ [last] ∧ last.kind.isTerminal = true ∧ ∀ t ∈ ts, t.kind.isTerminal = false) ∧
      (ofString query).tokens.length ≤ query.utf8ByteSize + 1 ∧
      (∀ n, (((ofString query).advance n).next).map Prod.fst = (ofString query).tokens[n]?) ∧
      ∀ steps, ∃ n ≤ 2, Rounds n ((ofString query).walk steps) ((ofString query).walk steps).next := by
  have hcovers : Covers [] query.toList (ofString query).tokens := Cursor.covers_tokens (Cursor.placed_ofChars query.toList)
  refine ⟨Cursor.exists_tokens_eq_append (Cursor.placed_ofChars query.toList), ?_, next_advance _, fun steps => ?_⟩
  · have hlength := hcovers.length_le
    rwa [byteLength_toList] at hlength
  · exact ((inPlace_ofString query).walk steps).exists_rounds

example : (Scanner.ofString "(").tokens.length = "(".utf8ByteSize + 1 := by decide +kernel

end RecordQuery
