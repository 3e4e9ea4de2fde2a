import RecordQuery.Proofs.Token.Cursor

/-!
# Whole scans

The tokens from a place on, move by move: a move adds the token that it cuts, and a stop adds the last one. Whatever holds of
the places at which a scan stops, and of a place if it holds of the place a move leads to, holds of every place
(`Cursor.scan_induction`).
-/

namespace RecordQuery

namespace Scanner

theorem next_of_halted {s : Scanner} (h : s.mode = none) : s.next = none := by
  rw [next, dif_pos h]

/-- A step that cuts a token gives the next one. -/
theorem next_of_token {s s' : Scanner} {t : Token} (hm : s.mode ≠ none) (h : s.step = (some t, s')) :
    s.next = some (t, s') := by
  rw [next, dif_neg hm]
  split
  next heq =>
    rw [h] at heq
    cases heq
    rfl
  next heq =>
    rw [h] at heq
    cases heq

/-- A step that cuts nothing leaves the next token to the scanner behind it. -/
theorem next_of_silent {s s' : Scanner} (hm : s.mode ≠ none) (h : s.step = (none, s')) : s.next = s'.next := by
  rw [next, dif_neg hm]
  split
  next heq =>
    rw [h] at heq
    cases heq
  next heq =>
    rw [h] at heq
    cases heq
    rfl

/-- Without a next token the tokens collected so far are all there are. -/
theorem collect_of_next_none {s : Scanner} (h : s.next = none) (acc : List Token) : s.collect acc = acc.reverse := by
  rw [collect]
  split
  next => rfl
  next heq =>
    rw [h] at heq
    cases heq

theorem collect_of_next_some {s s' : Scanner} {t : Token} (h : s.next = some (t, s')) (acc : List Token) :
    s.collect acc = s'.collect (t :: acc) := by
  rw [collect]
  split
  next heq =>
    rw [h] at heq
    cases heq
  next heq =>
    rw [h] at heq
    cases heq
    rfl

/-- The tokens collected so far come first. -/
theorem collect_eq (s : Scanner) (acc : List Token) : s.collect acc = acc.reverse ++ s.tokens := by
  induction hn : s.size using Nat.strongRecOn generalizing s acc with
  | _ n ih =>
    cases h : s.next with
    | none => rw [tokens, collect_of_next_none h, collect_of_next_none h, List.reverse_nil, List.append_nil]
    | some p =>
      obtain ⟨t, s'⟩ := p
      have hlt : s'.size < n := hn ▸ size_next_lt h
      rw [tokens, collect_of_next_some h, collect_of_next_some h, ih _ hlt s' (t :: acc) rfl, ih _ hlt s' [t] rfl,
        List.reverse_cons, List.reverse_singleton, List.append_assoc]

theorem tokens_of_halted {s : Scanner} (h : s.mode = none) : s.tokens = [] :=
  collect_of_next_none (next_of_halted h) []

theorem tokens_of_next_none {s : Scanner} (h : s.next = none) : s.tokens = [] := collect_of_next_none h []

/-- The next token is in front of those that come behind it. -/
theorem tokens_of_next_some {s s' : Scanner} {t : Token} (h : s.next = some (t, s')) : s.tokens = t :: s'.tokens := by
  rw [tokens, collect_of_next_some h, collect_eq]
  rfl

/-- The tokens that are taken are missing in front. -/
theorem tokens_advance (n : Nat) (s : Scanner) : (s.advance n).tokens = s.tokens.drop n := by
  induction n generalizing s with
  | zero => rfl
  | succ n ih =>
    rw [advance]
    split
    next h => rw [tokens_of_next_none h, List.drop_nil]
    next t s' h => rw [ih, tokens_of_next_some h, List.drop_succ_cons]

/-- A step adds the token that it cuts. -/
theorem tokens_of_step {s : Scanner} (h : s.mode ≠ none) : s.tokens = s.step.1.toList ++ s.step.2.tokens := by
  cases hs : s.step with
  | mk o s' =>
    cases o with
    | none =>
      have hn := next_of_silent h hs
      cases hn' : s'.next with
      | none => rw [tokens, collect_of_next_none (hn.trans hn'), tokens, collect_of_next_none hn']; rfl
      | some p =>
        obtain ⟨t, s''⟩ := p
        rw [tokens, collect_of_next_some (hn.trans hn'), tokens, collect_of_next_some hn']
        rfl
    | some t =>
      rw [tokens, collect_of_next_some (next_of_token h hs), collect_eq]
      rfl

end Scanner

namespace Cursor

/-- A move adds the token that it cuts, if it cuts one. -/
theorem tokens_of_move {c c' : Cursor} {o : Option Token} (h : Move c o c') : c.tokens = o.toList ++ c'.tokens := by
  have ht := Scanner.tokens_of_step (s := c.scanner) nofun
  rw [step_of_move h] at ht
  exact ht

/-- A stop adds the last token. -/
theorem tokens_of_stop {c : Cursor} {t : Token} (h : Stop c t) : c.tokens = [t] := by
  obtain ⟨ht, hm⟩ := step_of_stop h
  have hs := Scanner.tokens_of_step (s := c.scanner) nofun
  rw [ht, Scanner.tokens_of_halted hm] at hs
  exact hs

/-- A move leaves less to do. -/
theorem size_lt_of_move {c c' : Cursor} {o : Option Token} (h : Move c o c') : c'.scanner.size < c.scanner.size := by
  have hs := Scanner.size_step_lt (s := c.scanner) nofun
  rwa [step_of_move h] at hs

/-- What holds where a scan stops, and of a place if it holds of the place that a move leads to, holds of every place. -/
theorem scan_induction {P : Cursor → Prop} (stop : ∀ c t, Stop c t → P c)
    (move : ∀ c o c', Move c o c' → P c' → P c) (c : Cursor) (h : c.Placed) : P c := by
  induction hn : c.scanner.size using Nat.strongRecOn generalizing c with
  | _ n ih =>
    rcases move_or_stop h with ⟨o, c', hm⟩ | ⟨t, hs⟩
    · exact move c o c' hm (ih _ (hn ▸ size_lt_of_move hm) c' hm.placed rfl)
    · exact stop c t hs

end Cursor

end RecordQuery
