import RecordQuery.Proofs.Token.Sequence
import RecordQuery.Proofs.Token.Termination
import RecordQuery.Token.Offsets

/-!
# Steps by offsets

A scanner by offsets takes the same steps as the scanner that holds the pending text and the text ahead, as long as these are the query
from the start of the scanner on (`Scanner.Within`): there is a slice wherever it takes one, and each of its functions comes to what
the function of the other scanner comes to (`Scanner.Agrees`). Only where a mark is cut off does this depend on the place: the mark has to
stand there with nothing pending, as it does for a scanner in place (`Scanner.InPlace.agrees_step`).
-/

namespace RecordQuery

open Text

/-! ## Slices -/

namespace Text

/-- A slice is the word that stands between its offsets. -/
theorem slice?_eq_some_iff {text word : String} {start stop : Nat} :
    slice? text start stop = some word ↔ StandsAt text word start stop := by
  unfold slice?
  constructor
  · intro h
    split at h
    next hv =>
      have hle : text.pos _ hv.1 ≤ text.pos _ hv.2.1 := hv.2.2
      rw [String.extract_eq_copy_slice _ _ hle] at h
      obtain ⟨before, after, hstart, hstop⟩ := String.copy_slice_eq_iff_splits.mp ⟨hle, Option.some.inj h⟩
      exact ⟨before, after, hstop.eq_append, congrArg String.Pos.Raw.byteIdx hstart.offset_eq_rawEndPos,
        congrArg String.Pos.Raw.byteIdx hstop.offset_eq_rawEndPos⟩
    next => cases h
  · rintro ⟨before, after, htext, rfl, rfl⟩
    have hfront : text = before ++ (word ++ after) := by rw [htext, String.append_assoc]
    have hstart : String.Pos.Raw.IsValid text ⟨before.utf8ByteSize⟩ :=
      String.Pos.Raw.isValid_iff_exists_append.mpr ⟨before, word ++ after, hfront, rfl⟩
    have hstop : String.Pos.Raw.IsValid text ⟨(before ++ word).utf8ByteSize⟩ :=
      String.Pos.Raw.isValid_iff_exists_append.mpr ⟨before ++ word, after, htext, rfl⟩
    have hle : before.utf8ByteSize ≤ (before ++ word).utf8ByteSize := by
      rw [String.utf8ByteSize_append]
      exact Nat.le_add_right _ _
    obtain ⟨hpos, hcopy⟩ : ∃ h, (text.slice (text.pos _ hstart) (text.pos _ hstop) h).copy = word :=
      String.copy_slice_eq_iff_splits.mpr ⟨before, after, ⟨hfront, String.offset_pos⟩, ⟨htext, String.offset_pos⟩⟩
    rw [dif_pos ⟨hstart, hstop, hle⟩, String.extract_eq_copy_slice _ _ hpos, hcopy]

example : slice? "é(" 1 3 = none := by decide

/-- Behind the front of what is left from an offset on, the rest is left. -/
theorem RestAt.append {query front rest : List Char} {offset : Nat} (h : RestAt query offset (front ++ rest)) :
    RestAt query (offset + byteLength front) rest := by
  obtain ⟨before, rfl, rfl⟩ := h
  exact ⟨before ++ front, (List.append_assoc before front rest).symm, (byteLength_append before front).symm⟩

/-- What is left of a text from an offset on can be sliced off in front. -/
theorem RestAt.slice? {query : String} {word rest : List Char} {offset : Nat}
    (h : RestAt query.toList offset (word ++ rest)) :
    slice? query offset (offset + byteLength word) = some (String.ofList word) := by
  obtain ⟨before, hquery, rfl⟩ := h
  have hstands := standsAt_ofList before word rest
  rw [← hquery, String.ofList_toList] at hstands
  exact slice?_eq_some_iff.mpr hstands

/-- The offset from which on a text is left stands between two characters. -/
theorem RestAt.isValid {query : String} {rest : List Char} {offset : Nat} (h : RestAt query.toList offset rest) :
    String.Pos.Raw.IsValid query ⟨offset⟩ := by
  obtain ⟨before, hquery, rfl⟩ := h
  refine String.Pos.Raw.isValid_iff_exists_append.mpr ⟨String.ofList before, String.ofList rest, ?_, ?_⟩
  · rw [← String.ofList_append, ← hquery, String.ofList_toList]
  · rw [← utf8ByteSize_ofList]
    rfl

/-- The bytes of a text are those up to an offset and those that are left from it on. -/
theorem RestAt.utf8ByteSize_eq {query : String} {rest : List Char} {offset : Nat} (h : RestAt query.toList offset rest) :
    query.utf8ByteSize = offset + byteLength rest := by
  obtain ⟨before, hquery, rfl⟩ := h
  rw [← byteLength_toList, hquery, byteLength_append]

end Text

/-! ## Running by offsets -/

namespace OffsetScanner

variable {s : OffsetScanner} {p : Char → Bool} {c : Char}

/-- A run stops where nothing is ahead. -/
theorem runWhile_of_end (h : s.current? = some none) : s.runWhile p = some s := by
  rw [runWhile]
  split <;> simp_all

/-- A run goes on over a character that passes the test, and stops at one that does not. -/
theorem runWhile_of_char (h : s.current? = some (some c)) :
    s.runWhile p = if p c then (s.pass c).runWhile p else some s := by
  rw [runWhile]
  split <;> simp_all

end OffsetScanner

/-! ## The scanner by offsets -/

namespace Scanner

variable {query : String} {s : Scanner} {kind : TokenKind} {c : Char} {rest : List Char}

/-- The same scanner by offsets. -/
def byOffsets (s : Scanner) (query : String) : OffsetScanner := ⟨query, s.start, s.position, s.inFields, s.mode⟩

/-- The pending text and the text ahead are what the query has from the start of the scanner on. -/
def Within (s : Scanner) (query : String) : Prop := RestAt query.toList s.start (s.pending ++ s.rest)

theorem within_ofString (query : String) : (ofString query).Within query := ⟨[], rfl, rfl⟩

/-- Moving over a character makes it pending. -/
theorem pass_byOffsets (s : Scanner) (c : Char) (rest : List Char) :
    (s.byOffsets query).pass c = { s with pending := s.pending ++ [c], rest }.byOffsets query := by
  simp [OffsetScanner.pass, byOffsets, position, Nat.add_assoc]

namespace Within

variable (h : s.Within query)

include h

theorem position : RestAt query.toList s.position s.rest := h.append

theorem drop : s.drop.Within query := h.position

theorem pass (hr : s.rest = c :: rest) : { s with pending := s.pending ++ [c], rest }.Within query := by
  unfold Within at h
  rwa [hr, List.append_cons] at h

/-- A run takes text from what is ahead to what is pending. -/
theorem runWhile (p : Char → Bool) : (s.runWhile p).Within query := by
  show RestAt query.toList s.start ((s.pending ++ s.rest.takeWhile p) ++ s.rest.dropWhile p)
  rw [List.append_assoc, List.takeWhile_append_dropWhile]
  exact h

theorem skipLayout : s.skipLayout.Within query := (h.runWhile isLayout).drop

/-- The slice up to the end of the query is the text ahead. -/
theorem ahead? : (s.byOffsets query).ahead? = some (String.ofList s.rest) := by
  have hrest : RestAt query.toList s.position (s.rest ++ []) := by
    rw [List.append_nil]
    exact h.position
  show slice? query s.position query.utf8ByteSize = _
  rw [h.position.utf8ByteSize_eq, hrest.slice?]

/-- The first character of that slice is the first one ahead. -/
theorem current? : (s.byOffsets query).current? = some s.rest.head? := by
  rw [OffsetScanner.current?, h.ahead?, Option.map_some, String.toList_ofList]

/-- A run over characters one by one is a run over the text. -/
theorem runWhile_byOffsets (p : Char → Bool) :
    (s.byOffsets query).runWhile p = some ((s.runWhile p).byOffsets query) := by
  obtain ⟨start, pending, rest, inFields, mode⟩ := s
  -- what is run over becomes pending, so each turn is that of another scanner
  induction rest generalizing pending with
  | nil =>
    rw [OffsetScanner.runWhile_of_end h.current?, Scanner.runWhile, List.takeWhile_nil, List.dropWhile_nil, List.append_nil]
  | cons c rest ih =>
    rw [OffsetScanner.runWhile_of_char h.current?]
    split
    next hp =>
      rw [pass_byOffsets _ c rest, ih _ (h.pass rfl)]
      simp [Scanner.runWhile, hp]
    next hp => simp [Scanner.runWhile, hp]

/-- A run and a look at what ends it. -/
theorem runWhile_bind {α : Type} (p : Char → Bool) (next : OffsetScanner → Option Char → Option α) :
    ((s.byOffsets query).runWhile p >>= fun t => t.current? >>= next t) =
      next ((s.runWhile p).byOffsets query) (s.runWhile p).rest.head? := by
  simp only [h.runWhile_byOffsets, (h.runWhile p).current?, Option.bind_eq_bind, Option.bind_some]

theorem skipLayout_byOffsets : (s.byOffsets query).skipLayout = some (s.skipLayout.byOffsets query) := by
  rw [OffsetScanner.skipLayout, h.runWhile_byOffsets]
  rfl

/-- Moving over the first character ahead makes it pending. -/
theorem advance_byOffsets (hr : s.rest = c :: rest) :
    (s.byOffsets query).advance = some ({ s with pending := s.pending ++ [c], rest }.byOffsets query) := by
  rw [OffsetScanner.advance, h.current?, hr, ← pass_byOffsets]
  rfl

/-- What is cut is the pending text. -/
theorem emit_eq (kind : TokenKind) : (s.byOffsets query).emit kind =
    some (if kind.isTrimmed then s.trimmed? kind else some ⟨kind, String.ofList s.pending, s.start, s.position⟩,
      s.drop.byOffsets query) := by
  have hslice : Text.slice? (s.byOffsets query).query (s.byOffsets query).start (s.byOffsets query).position =
    some (String.ofList s.pending) := RestAt.slice? h
  have hlead : byteLength s.pending - byteLength (s.pending.dropWhile isBlank) = byteLength (s.pending.takeWhile isBlank) := by
    have hsum := byteLength_append (s.pending.takeWhile isBlank) (s.pending.dropWhile isBlank)
    rw [List.takeWhile_append_dropWhile] at hsum
    omega
  simp only [OffsetScanner.emit, hslice, Option.bind_eq_bind, Option.bind_some]
  split
  · simp only [trimmed, trimmedStart, Scanner.trimmed?, String.toList_ofList, utf8ByteSize_ofList, hlead,
      String.ofList_eq_empty_iff, List.isEmpty_iff]
    rfl
  · simp only [utf8ByteSize_ofList]
    rfl

/-- A character that is no blank is cut as it stands. -/
theorem emit_singleton (hp : s.pending = [c]) (hc : isBlank c = false) : (s.byOffsets query).emit kind =
    some (some ⟨kind, String.ofList [c], s.start, s.start + c.utf8Size⟩, s.drop.byOffsets query) := by
  have htrim : s.trimmed? kind = some ⟨kind, String.ofList [c], s.start, s.start + c.utf8Size⟩ := by
    simp [Scanner.trimmed?, trim, trimEnd, hp, hc]
  rw [h.emit_eq, htrim, Scanner.position, hp, byteLength_cons, byteLength_nil, Nat.add_zero, ite_self]

end Within

/-- What comes of a step by offsets is what comes of a step within the query, and the scanner stays within it. -/
structure Agrees (query : String) (found : Option (Option Token × OffsetScanner)) (next : Option Token × Scanner) : Prop where
  eq : found = some (next.1, next.2.byOffsets query)
  within : next.2.Within query

/-- Going on in a way is the same by offsets, and the scanner stays within the query. -/
def Mirrors (query : String) (next' : OffsetScanner → Option OffsetScanner) (next : Scanner → Scanner) : Prop :=
  ∀ s : Scanner, s.Within query → next' (s.byOffsets query) = some ((next s).byOffsets query) ∧ (next s).Within query

section Steps

variable {mode : Mode} (h : s.Within query)

include h

/-- The end of the input is the same by offsets. -/
theorem agrees_finish : Agrees query (s.byOffsets query).finish s.finish := by
  have hall : RestAt query.toList s.start (s.pending ++ s.rest ++ []) := by
    rw [List.append_nil]
    exact h
  have hslice : slice? (s.byOffsets query).query (s.byOffsets query).start (s.byOffsets query).query.utf8ByteSize =
      some (String.ofList (s.pending ++ s.rest)) := by
    show slice? query s.start query.utf8ByteSize = _
    rw [RestAt.utf8ByteSize_eq h, hall.slice?]
  refine ⟨?_, hall.append⟩
  simp only [OffsetScanner.finish, hslice, Option.bind_eq_bind, Option.bind_some]
  have hsize : (s.byOffsets query).query.utf8ByteSize = s.start + byteLength (s.pending ++ s.rest) :=
    RestAt.utf8ByteSize_eq h
  rw [hsize]
  rfl

theorem agrees_failWith (fault : ScanFault) :
    Agrees query (some ((s.byOffsets query).failWith fault)) (s.failWith fault) :=
  ⟨rfl, h⟩

/-- A token is cut where there is something to cut. -/
theorem emitPending_eq (kind : TokenKind) (mode : Mode) : (s.byOffsets query).emitPending kind mode =
    some (if kind.isTrimmed then s.trimmed? kind else s.verbatim? kind, (s.drop.enter mode).byOffsets query) := by
  unfold OffsetScanner.emitPending
  split
  next hlt =>
    have hne : s.pending ≠ [] := by
      intro hnil
      rw [byOffsets, Scanner.position, hnil] at hlt
      exact Nat.lt_irrefl _ hlt
    rw [h.emit_eq, verbatim?, List.isEmpty_eq_false_iff.mpr hne]
    rfl
  next hge =>
    have hnil : s.pending = [] := by
      by_contra hne
      exact hge (Nat.lt_add_of_pos_right (byteLength_pos hne))
    have htrim : s.trimmed? kind = none := by rw [Scanner.trimmed?, hnil]; rfl
    have hverbatim : s.verbatim? kind = none := by rw [verbatim?, hnil]; rfl
    have hdrop : s.drop.byOffsets query = s.byOffsets query := by simp [Scanner.drop, byOffsets, Scanner.position, hnil]
    rw [htrim, hverbatim, ite_self]
    exact congrArg (fun t : OffsetScanner => some (none, t.enter mode)) hdrop.symm

/-- A kind that is not trimmed is cut as it stands. -/
theorem agrees_verbatim (hk : kind.isTrimmed = false) :
    Agrees query ((s.byOffsets query).emitPending kind mode) (s.verbatim? kind, s.drop.enter mode) := by
  refine ⟨?_, h.drop⟩
  rw [emitPending_eq h, hk]
  rfl

theorem agrees_trimmed (hk : kind.isTrimmed = true) :
    Agrees query ((s.byOffsets query).emitPending kind mode) (s.trimmed? kind, s.drop.enter mode) := by
  refine ⟨?_, h.drop⟩
  rw [emitPending_eq h, hk]
  rfl

/-- Behind nothing pending, a character that is no blank is cut off alone. -/
theorem agrees_cutDelimiter {next' : OffsetScanner → Option OffsetScanner} {next : Scanner → Scanner}
    (hp : s.pending = []) (hr : s.rest = c :: rest) (hc : isBlank c = false) (hn : Mirrors query next' next) :
    Agrees query ((s.byOffsets query).cutDelimiter kind next') (s.cutDelimiter kind next) := by
  obtain ⟨start, pending, ahead, inFields, scanMode⟩ := s
  obtain rfl : pending = [] := hp
  obtain rfl : ahead = c :: rest := hr
  have hpass := h.pass rfl
  obtain ⟨hnext, hwithin⟩ := hn _ hpass.drop
  refine ⟨?_, hwithin⟩
  simp only [OffsetScanner.cutDelimiter, h.advance_byOffsets rfl, hpass.emit_singleton rfl hc, hnext, Option.bind_eq_bind,
    Option.bind_some]
  rfl

end Steps

/-! ### Going on behind a mark -/

/-- Going on in another mode is the same by offsets. -/
theorem mirrors_enter (mode : Mode) : Mirrors query (fun t => some (t.enter mode)) (·.enter mode) :=
  fun _ h => ⟨rfl, h⟩

/-- Layout behind a comma is skipped. -/
theorem mirrors_fields : Mirrors query (fun t => return (← t.skipLayout).enter .fields) (·.skipLayout.enter .fields) := by
  intro s h
  refine ⟨?_, h.skipLayout⟩
  simp only [h.skipLayout_byOffsets, Option.bind_eq_bind, Option.bind_some]
  rfl

/-- So is layout behind a left brace, which opens a field group. -/
theorem mirrors_openFields : Mirrors query (fun t => return (← ({ t with inFields := true }).skipLayout).enter .fields)
    (fun t => ({ t with inFields := true }).skipLayout.enter .fields) :=
  fun s h => mirrors_fields { s with inFields := true } h

/-- The first character behind the layout tells whether a call follows an argument. -/
theorem mirrors_afterParen : Mirrors query
    (fun t => do
      let t ← t.skipLayout
      return t.enter (if (← t.current?) = some '.' then .dot else .leftBrace))
    (fun t => t.skipLayout.enter (if t.skipLayout.rest.head? = some '.' then .dot else .leftBrace)) := by
  intro s h
  refine ⟨?_, h.skipLayout⟩
  simp only [h.skipLayout_byOffsets, h.skipLayout.current?, Option.bind_eq_bind, Option.bind_some]
  rfl

/-- The scan comes to its end behind a right brace where trimming leaves nothing of the text ahead. -/
theorem mirrors_afterBrace : Mirrors query
    (fun t => return t.enter (if trimmedStart (← t.ahead?) = "" then .ending else .fields))
    (fun t => t.enter (if t.rest.all isBlank then .ending else .fields)) := by
  intro s h
  have hblank : trimmedStart (String.ofList s.rest) = "" ↔ s.rest.all isBlank = true := by
    simp [trimmedStart]
  refine ⟨?_, h⟩
  simp only [h.ahead?, hblank, Option.bind_eq_bind, Option.bind_some]
  rfl

/-! ### Steps -/

section Scans

variable (h : s.Within query)

include h

/-- The name of the requested record is the same by offsets. -/
theorem agrees_scanObjectName : Agrees query (s.byOffsets query).scanObjectName s.scanObjectName := by
  have hrun := h.runWhile fun c => c != '(' && c != '.'
  rw [OffsetScanner.scanObjectName, h.runWhile_bind, scanObjectName]
  cases (s.runWhile fun c => c != '(' && c != '.').rest with
  | nil => exact agrees_finish hrun
  | cons c rest => exact agrees_verbatim hrun rfl

theorem agrees_scanFunctionName : Agrees query (s.byOffsets query).scanFunctionName s.scanFunctionName := by
  have hrun := h.runWhile (· != '(')
  rw [OffsetScanner.scanFunctionName, h.runWhile_bind, scanFunctionName]
  cases (s.runWhile (· != '(')).rest with
  | nil => exact agrees_failWith hrun .functionName
  | cons c rest => exact agrees_trimmed hrun rfl

theorem agrees_scanArgument : Agrees query (s.byOffsets query).scanArgument s.scanArgument := by
  have hrun := h.runWhile fun c => c != ')' && c != '\n'
  rw [OffsetScanner.scanArgument, h.runWhile_bind, scanArgument]
  cases (s.runWhile fun c => c != ')' && c != '\n').rest with
  | nil => exact agrees_failWith hrun .argument
  | cons c rest =>
    by_cases hc : c = ')'
    · subst hc
      exact agrees_verbatim hrun rfl
    · simp only [List.head?_cons, Option.some.injEq, List.cons.injEq, hc, false_and, imp_self, implies_true]
      exact agrees_failWith hrun .argument

theorem agrees_scanFields : Agrees query (s.byOffsets query).scanFields s.scanFields := by
  have hrun := h.runWhile fun c => !isFieldDelimiter c
  rw [OffsetScanner.scanFields, h.runWhile_bind, scanFields]
  cases (s.runWhile fun c => !isFieldDelimiter c).rest with
  | nil => exact agrees_failWith hrun .fieldName
  | cons c rest =>
    by_cases hc : c = '('
    · simp only [List.head?_cons, if_pos hc]
      exact agrees_trimmed hrun rfl
    · simp only [List.head?_cons, if_neg hc]
      exact agrees_trimmed hrun rfl

/-- What may follow an argument is the same by offsets, with nothing pending. -/
theorem agrees_scanLeftBrace (hp : s.pending = []) : Agrees query (s.byOffsets query).scanLeftBrace s.scanLeftBrace := by
  have hf : (s.byOffsets query).inFields = s.inFields := rfl
  simp only [OffsetScanner.scanLeftBrace, scanLeftBrace, h.current?, hf, Option.bind_eq_bind, Option.bind_some]
  cases hr : s.rest with
  | nil =>
    cases s.inFields with
    | true => exact agrees_failWith h .fieldName
    | false => exact agrees_finish h
  | cons c rest =>
    by_cases hc : c = '{'
    · subst hc
      exact agrees_cutDelimiter h hp hr rfl mirrors_openFields
    · simp only [List.head?_cons]
      exact agrees_failWith h .openBrace

end Scans

/-- At a mark, the scanner by offsets cuts it off. -/
theorem agrees_mark {cur : Cursor} {next' : OffsetScanner → Option OffsetScanner} {next : Scanner → Scanner}
    (h : cur.scanner.Within query) (hc : cur.ahead.head? = some c) (hb : isBlank c = false) (hn : Mirrors query next' next) :
    Agrees query ((cur.scanner.byOffsets query).cutDelimiter kind next') (cur.scanner.cutDelimiter kind next) := by
  obtain ⟨rest, hr⟩ := List.head?_eq_some_iff.mp hc
  exact agrees_cutDelimiter h rfl hr hb hn

/-- Each step of a scanner that stands where it finds what it expects is the same by offsets. -/
theorem InPlace.agrees_step (hs : s.InPlace) (h : s.Within query) : Agrees query (s.byOffsets query).step s.step := by
  rcases hs with hm | ⟨⟨mode, inFields, before, ahead⟩, hc, rfl⟩
  · have hm' : (s.byOffsets query).mode = none := hm
    rw [step_of_halted hm, OffsetScanner.step, hm']
    exact ⟨rfl, h⟩
  · cases mode with
    | objectName => exact agrees_scanObjectName h
    | functionName => exact agrees_scanFunctionName h
    | argument => exact agrees_scanArgument h
    | fields => exact agrees_scanFields h
    | leftBrace => exact agrees_scanLeftBrace h rfl
    | ending => exact agrees_finish h
    -- what is cut off unseen is the mark that the mode expects
    | dot => exact agrees_mark h hc rfl (mirrors_enter .functionName)
    | leftParen => exact agrees_mark h hc rfl (mirrors_enter .argument)
    | rightParen => exact agrees_mark h hc rfl mirrors_afterParen
    | comma => exact agrees_mark h hc rfl mirrors_fields
    | rightBrace => exact agrees_mark h hc rfl mirrors_afterBrace

end Scanner

end RecordQuery
