import RecordQuery.Proofs.Token.Offsets

/-!
# What every step of a scan keeps

A scanner by offsets slices the query between two of its characters only, and the mode that it is in tells what stands at its position
(`OffsetScanner.Sound`). Each of its steps is the step of the scanner that holds the text (`Scanner.InPlace.agrees_step`), which is in
place and within the query wherever it has come to, and has opened a field group once a left brace is cut. So a run of any length
succeeds and comes to where the other scanner has come to (`OffsetScanner.run_ofString`).
-/

namespace RecordQuery

open Text

/-! ## Steps of the scanner that holds the text -/

/-- A stop opens no field group. -/
theorem Cursor.inFields_of_stop {c : Cursor} {t : Token} (h : Stop c t) : c.scanner.step.2.inFields = c.inFields := by
  cases h with
  | objectName | functionName | argument | fields =>
    simp only [step_scanner, Scanner.scanObjectName, Scanner.scanFunctionName, Scanner.scanArgument, Scanner.scanFields]
    repeat' split
    all_goals rfl
  | unopened | unclosed | ending => rfl
  | openBrace hc =>
    simp only [step_scanner, Scanner.scanLeftBrace]
    split
    next hr =>
      cases hr
      exact absurd rfl hc
    next hr => cases hr
    next => rfl

/-- A terminal token opens no field group. -/
theorem Scanner.Mode.Last.ne_leftBrace {m : Scanner.Mode} {k : TokenKind} (h : m.Last k) : k ≠ .leftBrace := by
  rintro rfl
  cases h

namespace Scanner

variable {query : String} {s : Scanner}

/-- A scanner in place has nothing pending and finds what its mode expects. -/
theorem InPlace.expects {m : Mode} (h : s.InPlace) (hm : s.mode = some m) :
    s.start = s.position ∧ Cursor.Expects m s.rest := by
  rcases h with hnone | ⟨c, hc, rfl⟩
  · rw [hnone] at hm
    cases hm
  · cases hm
    exact ⟨rfl, hc⟩

/-- A step opens a field group where it cuts a left brace. -/
theorem InPlace.opened_step (h : s.InPlace) :
    s.step.2.inFields = true ↔ s.inFields = true ∨ s.step.1.map Token.kind = some .leftBrace := by
  rcases h with hm | ⟨c, hc, rfl⟩
  · simp [step_of_halted hm]
  · rcases Cursor.move_or_stop hc with ⟨o, c', hmove⟩ | ⟨t, hstop⟩
    · rw [Cursor.step_of_move hmove]
      exact hmove.opened
    · have hkind := hstop.last.ne_leftBrace
      rw [Cursor.inFields_of_stop hstop, (Cursor.step_of_stop hstop).1]
      simp [Cursor.scanner, hkind]

/-- The tokens that are cut in a number of steps. -/
def cutWithin (s : Scanner) : Nat → List Token
  | 0 => []
  | n + 1 => s.cutWithin n ++ (s.walk n).step.1.toList

/-- The tokens of a scan are those that are cut and those that are still to come. -/
theorem tokens_eq_cutWithin_append (s : Scanner) (n : Nat) : s.tokens = s.cutWithin n ++ (s.walk n).tokens := by
  induction n with
  | zero => rfl
  | succ n ih =>
    have hstep : (s.walk n).tokens = (s.walk n).step.1.toList ++ (s.walk (n + 1)).tokens := by
      by_cases hm : (s.walk n).mode = none
      · rw [walk, step_of_halted hm]
        rfl
      · exact tokens_of_step hm
    rw [ih, hstep, cutWithin, List.append_assoc]

/-- A scan stays within its query. -/
theorem within_walk (query : String) (n : Nat) : ((ofString query).walk n).Within query := by
  induction n with
  | zero => exact within_ofString query
  | succ n ih => exact (((inPlace_ofString query).walk n).agrees_step ih).within

/-- A field group has been opened once a left brace is cut. -/
theorem opened_walk (query : String) (n : Nat) :
    ((ofString query).walk n).inFields = true ↔ Opened ((ofString query).cutWithin n) := by
  induction n with
  | zero => exact (Cursor.past_ofChars query.toList).opened
  | succ n ih =>
    have hstep := ((inPlace_ofString query).walk n).opened_step
    rw [ih] at hstep
    rw [cutWithin, opened_append]
    exact hstep

end Scanner

/-! ## Runs by offsets -/

/-- The mark on which a scanner in this mode stands. -/
def Scanner.Mode.mark? : Scanner.Mode → Option Char
  | .dot => some '.'
  | .leftParen => some '('
  | .rightParen => some ')'
  | .comma => some ','
  | .rightBrace => some '}'
  | _ => none

/-- What holds of a scanner by offsets that has cut these tokens from a query. -/
structure OffsetScanner.Sound (query : String) (read : List Token) (s : OffsetScanner) : Prop where
  query_eq : s.query = query
  start_le : s.start ≤ s.position
  position_le : s.position ≤ query.utf8ByteSize
  /-- Both offsets stand between two characters. -/
  start_isValid : String.Pos.Raw.IsValid query ⟨s.start⟩
  position_isValid : String.Pos.Raw.IsValid query ⟨s.position⟩
  /-- Whatever is looked at or cut from here is there. -/
  slices : s.ahead?.isSome ∧ s.current?.isSome ∧ (∀ kind, (s.emit kind).isSome) ∧ s.finish.isSome
  /-- In every mode nothing is pending. -/
  settled : s.mode ≠ none → s.start = s.position
  /-- A scanner that is to cut a mark off stands on it. -/
  mark : ∀ m c, s.mode = some m → m.mark? = some c → s.current? = some (some c)
  opened : s.inFields = true ↔ Opened read
  /-- At the end there are only blanks. -/
  ending : s.mode = some .ending → ∃ text, s.ahead? = some text ∧ Blank text.toList

namespace OffsetScanner

variable {query : String} {s : Scanner} {read : List Token}

/-- Where a mode cuts a mark off, the text ahead starts with it. -/
theorem head?_of_mark {m : Scanner.Mode} {c : Char} {ahead : List Char} (h : Cursor.Expects m ahead) (hm : m.mark? = some c) :
    ahead.head? = some c := by
  cases m <;> cases hm <;> exact h

/-- A scanner in place and within the query is sound by offsets. -/
theorem sound_byOffsets (hs : s.InPlace) (h : s.Within query) (ho : s.inFields = true ↔ Opened read) :
    (s.byOffsets query).Sound query read where
  query_eq := rfl
  start_le := Nat.le_add_right _ _
  position_le := by
    rw [h.position.utf8ByteSize_eq]
    exact Nat.le_add_right _ _
  start_isValid := RestAt.isValid h
  position_isValid := h.position.isValid
  slices := by
    rw [h.ahead?, h.current?, (Scanner.agrees_finish h).eq]
    exact ⟨rfl, rfl, fun kind => by rw [h.emit_eq]; rfl, rfl⟩
  settled := by
    intro hm
    obtain ⟨m, hm⟩ := Option.ne_none_iff_exists'.mp hm
    exact (hs.expects hm).1
  mark := by
    intro m c hm hc
    rw [h.current?, head?_of_mark (hs.expects hm).2 hc]
  opened := ho
  ending := by
    intro hm
    refine ⟨_, h.ahead?, ?_⟩
    rw [String.toList_ofList]
    exact (hs.expects hm).2

/-- A run by offsets comes to where the scanner that holds the text has come to, with the tokens that this one has cut. -/
theorem run_ofString (query : String) (n : Nat) : (ofString query).run n =
    some ((Scanner.ofString query).cutWithin n, ((Scanner.ofString query).walk n).byOffsets query) := by
  induction n with
  | zero => rfl
  | succ n ih =>
    have hstep := ((Scanner.inPlace_ofString query).walk n).agrees_step (Scanner.within_walk query n)
    simp only [run, ih, hstep.eq, Option.bind_eq_bind, Option.bind_some]
    rfl

/-- No step of a scanner by offsets fails. However many it has taken, it is sound and stands where the scanner that holds the text has
come to, and the tokens that it has cut are the first of the query, with those that are still to come behind them. -/
theorem run_sound (query : String) (steps : Nat) :
    ∃ read s, (ofString query).run steps = some (read, s) ∧ s.Sound query read ∧
      s = ((Scanner.ofString query).walk steps).byOffsets query ∧
      (Scanner.ofString query).tokens = read ++ ((Scanner.ofString query).walk steps).tokens :=
  ⟨_, _, run_ofString query steps,
    sound_byOffsets ((Scanner.inPlace_ofString query).walk steps) (Scanner.within_walk query steps)
      (Scanner.opened_walk query steps), rfl, Scanner.tokens_eq_cutWithin_append _ steps⟩

end OffsetScanner

end RecordQuery
