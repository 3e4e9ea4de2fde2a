import RecordQuery.Proofs.Selection.Pieces

/-!
# Blanks between tokens

What the tokens of a query say (`Token.lexeme`) does not depend on the blanks between them. `Spells` writes lexemes down one
behind the other, with whatever blanks may stand behind each of them, and a scanner finds the same lexemes in everything that
is spelled so (`Cursor.stable`). The proof follows the moves of the scanner on the query that the lexemes come from.
-/

namespace RecordQuery

open Text

/-- What a token says, wherever it stands: its kind and its text. -/
abbrev Lexeme : Type := TokenKind × String

/-- What a token says. -/
def Token.lexeme (t : Token) : Lexeme := (t.kind, t.text)

/-- What may stand behind a token and belongs to none: nothing where the text goes on as it is, layout behind a right
parenthesis, and blanks behind the rest. -/
def TokenKind.Gap : TokenKind → List Char → Prop
  | .rightParen, gap => Layout gap
  | .dot, gap | .function, gap | .leftBrace, gap | .fieldName, gap | .comma, gap | .rightBrace, gap => Blank gap
  | _, gap => gap = []

/-- A text writes lexemes one behind the other. -/
inductive Spells : List Lexeme → List Char → Prop where
  | nil : Spells [] []
  | cons {kind : TokenKind} {word : String} {gap text : List Char} {ls : List Lexeme} (hg : kind.Gap gap)
      (h : Spells ls text) : Spells ((kind, word) :: ls) (word.toList ++ (gap ++ text))

/-- What a scanner drops in front of the next token. -/
def Scanner.Mode.Skips : Scanner.Mode → List Char → Prop
  | .functionName, gap | .fields, gap | .ending, gap => Blank gap
  | _, gap => gap = []

/-- A scanner in this mode cuts a mark off. -/
def Scanner.Mode.IsMark : Scanner.Mode → Prop
  | .dot | .leftParen | .rightParen | .leftBrace | .comma | .rightBrace => True
  | _ => False

namespace Spells

variable {ls : List Lexeme} {text : List Char}

theorem eq_nil (h : Spells [] text) : text = [] := by
  cases h
  rfl

/-- The first lexeme stands in front. -/
theorem exists_gap {kind : TokenKind} {before word : List Char} (h : Spells ((Token.cut kind before word).lexeme :: ls) text) :
    ∃ gap text', text = word ++ (gap ++ text') ∧ kind.Gap gap ∧ Spells ls text' := by
  cases h with
  | @cons _ _ gap text' _ hg h =>
    refine ⟨gap, text', ?_, hg, h⟩
    rw [Token.cut, String.toList_ofList]

end Spells

namespace Cursor

/-- From a place on there are tokens that say this, in front of the end of the input. -/
def Yields (c : Cursor) (ls : List Lexeme) : Prop :=
  ∃ ts e, c.tokens = ts ++ [e] ∧ e.kind = .endOfInput ∧ ts.map Token.lexeme = ls

variable {c c' : Cursor} {ls : List Lexeme} {text : List Char}

/-- A move that cuts nothing changes nothing about what is yielded. -/
theorem yields_of_silent (h : Move c none c') : c.Yields ls ↔ c'.Yields ls := by
  rw [Yields, Yields, tokens_of_move h]
  rfl

/-- A move with a token yields what the token says, and then what is yielded behind it. -/
theorem yields_of_token {t : Token} (h : Move c (some t) c') (ht : t.kind ≠ .endOfInput) :
    c.Yields ls ↔ ∃ ls', ls = t.lexeme :: ls' ∧ c'.Yields ls' := by
  rw [Yields, tokens_of_move h]
  constructor
  · rintro ⟨_ | ⟨u, ts⟩, e, htokens, he, rfl⟩
    · rw [(List.cons.inj htokens).1] at ht
      exact absurd he ht
    · obtain ⟨rfl, htail⟩ := List.cons.inj htokens
      exact ⟨ts.map Token.lexeme, rfl, ts, e, htail, he, rfl⟩
  · rintro ⟨ls', rfl, ts, e, htokens, he, rfl⟩
    exact ⟨t :: ts, e, by rw [htokens]; rfl, he, rfl⟩

/-- A stop yields no lexemes, and only if it is the end of the input. -/
theorem yields_of_stop {t : Token} (h : Stop c t) : c.Yields ls ↔ ls = [] ∧ t.kind = .endOfInput := by
  rw [Yields, tokens_of_stop h]
  constructor
  · rintro ⟨_ | ⟨u, ts⟩, e, htokens, he, rfl⟩
    · exact ⟨rfl, (List.cons.inj htokens).1 ▸ he⟩
    · exact absurd (List.cons.inj htokens).2 (List.append_ne_nil_of_right_ne_nil ts (List.cons_ne_nil e [])).symm
  · rintro ⟨rfl, he⟩
    exact ⟨[], t, rfl, he, rfl⟩

/-! ## What stands in front -/

/-- A text that spells what a scanner yields in front of a mark starts with the mark. -/
theorem head?_of_isMark (hp : c.Placed) (hm : c.mode.IsMark) (hy : c.Yields ls) (hs : Spells ls text) :
    text.head? = c.ahead.head? := by
  have hcut {kind : TokenKind} {before rest : List Char} {m : Char} {c' : Cursor} (ha : c.ahead = m :: rest)
      (hmove : Move c (some (.cut kind before [m])) c') (hk : kind ≠ .endOfInput) : text.head? = c.ahead.head? := by
    obtain ⟨ls', rfl, _⟩ := (yields_of_token hmove hk).mp hy
    obtain ⟨gap, text', rfl, _⟩ := hs.exists_gap
    rw [ha]
    rfl
  rcases move_or_stop hp with ⟨o, c', hmove⟩ | ⟨t, hstop⟩
  · cases hmove with
    | objectName | functionName | argument | field | fieldFunction => cases hm
    | dot => exact hcut rfl .dot nofun
    | leftParen => exact hcut rfl .leftParen nofun
    | rightParen hl hr => exact hcut rfl (.rightParen hl hr) nofun
    | leftBrace hl hr => exact hcut rfl (.leftBrace hl hr) nofun
    | comma hl hr => exact hcut rfl (.comma hl hr) nofun
    | rightBrace => exact hcut rfl .rightBrace nofun
  · obtain ⟨rfl, he⟩ := (yields_of_stop hstop).mp hy
    cases hstop with
    | objectName | functionName | argument | fields | ending => cases hm
    | unopened => rw [hs.eq_nil]
    | unclosed | openBrace => cases he

/-- In front of a mark that can be cut off. -/
theorem exists_cons_of_isMark {m : Char} {rest : List Char} (hp : c.Placed) (hm : c.mode.IsMark) (ha : c.ahead = m :: rest)
    (hy : c.Yields ls) (hs : Spells ls text) : ∃ text', text = m :: text' := by
  have hhead := head?_of_isMark hp hm hy hs
  rw [ha] at hhead
  exact List.head?_eq_some_iff.mp hhead

/-- A scanner that has found a mark of a field group cuts it off next. -/
theorem isMark_delimiterMode {m : Char} : (Scanner.delimiterMode m).IsMark := by
  unfold Scanner.delimiterMode
  split
  · trivial
  · split
    · trivial
    · split <;> trivial

/-! ## What is spelled alike is scanned alike -/

/-- Whatever spells what the scanner yields from a place on is scanned alike in its stead. -/
def Stable (c : Cursor) : Prop :=
  ∀ ls text, c.Yields ls → Spells ls text → ∀ skipped, c.mode.Skips skipped → ∀ before,
    Yields ⟨c.mode, c.inFields, before, skipped ++ text⟩ ls

/-- Without anything in front. -/
theorem Stable.yields (h : c.Stable) (hy : c.Yields ls) (hs : Spells ls text) (before : List Char) :
    Yields ⟨c.mode, c.inFields, before, text⟩ ls := by
  refine h ls text hy hs [] ?_ before
  cases c.mode with
  | functionName | fields | ending => exact blank_nil
  | _ => rfl

variable {m m' : Scanner.Mode} {inFields : Bool} {before rest : List Char}

section Words

variable (kind : TokenKind) {stop : Char} {stops name : List Char} (hn : Avoids stops name)
  (hp : Cursor.Placed ⟨m', inFields, before ++ name, stop :: rest⟩) (hm : m'.IsMark)
  (ih : Stable ⟨m', inFields, before ++ name, stop :: rest⟩) (hk : kind ≠ .endOfInput)

include hn hp hm ih hk

/-- In front of a text that is cut off as it stands. -/
theorem stable_of_verbatim (hgap : ∀ gap, kind.Gap gap → gap = []) (hskips : ∀ skipped, m.Skips skipped → skipped = [])
    (hmove : ∀ before name rest, Avoids stops name → Move ⟨m, inFields, before, name ++ stop :: rest⟩
      (Token.verbatim? kind before name) ⟨m', inFields, before ++ name, stop :: rest⟩) :
    Stable ⟨m, inFields, before, name ++ stop :: rest⟩ := by
  intro ls text hy hs skipped hskip before'
  cases hskips skipped hskip
  have hthis := hmove before name rest hn
  by_cases hne : name = []
  · rw [Token.verbatim?, if_pos hne] at hthis
    have hy' := (yields_of_silent hthis).mp hy
    obtain ⟨text, rfl⟩ := exists_cons_of_isMark hp hm rfl hy' hs
    have hother := hmove before' [] text (avoids_nil stops)
    exact (yields_of_silent hother).mpr (ih.yields hy' hs _)
  · rw [Token.verbatim?_of_ne_nil _ _ hne] at hthis
    obtain ⟨ls, rfl, hy'⟩ := (yields_of_token hthis hk).mp hy
    obtain ⟨gap, text, rfl, hg, hrest⟩ := hs.exists_gap
    cases hgap gap hg
    obtain ⟨text, rfl⟩ := exists_cons_of_isMark hp hm rfl hy' hrest
    have hother := hmove before' name text hn
    rw [Token.verbatim?_of_ne_nil _ _ hne] at hother
    exact (yields_of_token hother hk).mpr ⟨ls, rfl, ih.yields hy' hrest _⟩

/-- In front of a text of which the word without its outer blanks is cut off. -/
theorem stable_of_trimmed (hgap : ∀ gap, kind.Gap gap → Blank gap) (hskips : ∀ skipped, m.Skips skipped → Blank skipped)
    (hblank : ∀ gap, Blank gap → Avoids stops gap)
    (hmove : ∀ before name rest, Avoids stops name → Move ⟨m, inFields, before, name ++ stop :: rest⟩
      (Token.trimmed? kind before name) ⟨m', inFields, before ++ name, stop :: rest⟩) :
    Stable ⟨m, inFields, before, name ++ stop :: rest⟩ := by
  intro ls text hy hs skipped hskip before'
  have hskip := hskips skipped hskip
  have hthis := hmove before name rest hn
  by_cases hb : Blank name
  · rw [Token.trimmed?_of_blank _ _ hb] at hthis
    have hy' := (yields_of_silent hthis).mp hy
    obtain ⟨text, rfl⟩ := exists_cons_of_isMark hp hm rfl hy' hs
    have hother := hmove before' skipped text (hblank skipped hskip)
    rw [Token.trimmed?_of_blank _ _ hskip] at hother
    exact (yields_of_silent hother).mpr (ih.yields hy' hs _)
  · rw [Token.trimmed?_of_not_blank _ _ hb] at hthis
    obtain ⟨ls, rfl, hy'⟩ := (yields_of_token hthis hk).mp hy
    obtain ⟨gap, text, rfl, hg, hrest⟩ := hs.exists_gap
    obtain ⟨text, rfl⟩ := exists_cons_of_isMark hp hm rfl hy' hrest
    -- the word is the same, whatever blanks stand around it
    have hword : trim (skipped ++ (trim name ++ gap)) = trim name := by
      rw [trim_append_of_blank hskip, trim_append_blank (hgap gap hg), trim_eq_self_iff.mpr (trimmed_trim name)]
    have hb' : ¬Blank (skipped ++ (trim name ++ gap)) := by
      rwa [← trim_eq_nil_iff, hword, trim_eq_nil_iff]
    have hn' : Avoids stops (skipped ++ (trim name ++ gap)) :=
      avoids_append.mpr ⟨hblank skipped hskip,
        avoids_append.mpr ⟨fun c hc => hn c (mem_of_mem_trim hc), hblank gap (hgap gap hg)⟩⟩
    have hother := hmove before' _ text hn'
    rw [Token.trimmed?_of_not_blank _ _ hb', hword] at hother
    have hy'' := (yields_of_token hother hk).mpr ⟨ls, rfl, ih.yields hy' hrest _⟩
    rwa [List.append_assoc, List.append_assoc] at hy''

end Words

/-- A text that spells what a scanner yields inside a field group is not blank. -/
theorem not_blank_of_fields {ahead : List Char} (hy : Yields ⟨.fields, inFields, before, ahead⟩ ls) (hs : Spells ls text) :
    ¬Blank text := by
  have hname {kind : TokenKind} {m : Scanner.Mode} {name rest : List Char} {c : Char}
      (hmove : Move ⟨.fields, inFields, before, ahead⟩ (Token.trimmed? kind before name)
        ⟨m, inFields, before ++ name, c :: rest⟩)
      (hk : kind ≠ .endOfInput) (hm : m.IsMark) (hc : c ∈ fieldStops) : ¬Blank text := by
    by_cases hb : Blank name
    · rw [Token.trimmed?_of_blank _ _ hb] at hmove
      obtain ⟨text, rfl⟩ := exists_cons_of_isMark hmove.placed hm rfl ((yields_of_silent hmove).mp hy) hs
      exact fun h => h.avoids_fieldStops c List.mem_cons_self hc
    · rw [Token.trimmed?_of_not_blank _ _ hb] at hmove
      obtain ⟨ls, rfl, _⟩ := (yields_of_token hmove hk).mp hy
      obtain ⟨gap, text, rfl, _⟩ := hs.exists_gap
      have hword := (trimmed_trim name).not_blank fun h => hb (trim_eq_nil_iff.mp h)
      exact fun h => hword (blank_append.mp h).1
  rcases move_or_stop (c := ⟨.fields, inFields, before, ahead⟩) trivial with ⟨o, c', hmove⟩ | ⟨t, hstop⟩
  · cases hmove with
    | field hn hc hp => exact hname (.field hn hc hp) nofun isMark_delimiterMode hc
    | fieldFunction hn => exact hname (.fieldFunction hn) nofun trivial (by decide)
  · obtain ⟨_, he⟩ := (yields_of_stop hstop).mp hy
    cases hstop with
    | fields => cases he

/-- In front of a mark with nothing to skip behind it. -/
theorem stable_of_mark (kind : TokenKind) {stop : Char} (ih : Stable ⟨m', inFields, before ++ [stop], rest⟩)
    (hk : kind ≠ .endOfInput) (hgap : ∀ gap, kind.Gap gap → m'.Skips gap)
    (hskips : ∀ skipped, m.Skips skipped → skipped = [])
    (hmove : ∀ before rest, Move ⟨m, inFields, before, stop :: rest⟩ (some (.cut kind before [stop]))
      ⟨m', inFields, before ++ [stop], rest⟩) : Stable ⟨m, inFields, before, stop :: rest⟩ := by
  intro ls text hy hs skipped hskip before'
  cases hskips skipped hskip
  obtain ⟨ls, rfl, hy'⟩ := (yields_of_token (hmove before rest) hk).mp hy
  obtain ⟨gap, text, rfl, hg, hrest⟩ := hs.exists_gap
  exact (yields_of_token (hmove before' (gap ++ text)) hk).mpr ⟨ls, rfl, ih ls text hy' hrest gap (hgap gap hg) _⟩

/-- In front of a right parenthesis: whether a call follows does not depend on the layout in between. -/
theorem stable_of_rightParen {layout : List Char} (hl : Layout layout) (hr : StartsSolid rest)
    (ih : Stable ⟨.afterParen rest, inFields, before ++ ')' :: layout, rest⟩) :
    Stable ⟨.rightParen, inFields, before, ')' :: (layout ++ rest)⟩ := by
  intro ls text hy hs skipped hskip before'
  cases hskip
  have hthis := @Move.rightParen inFields before layout rest hl hr
  obtain ⟨ls, rfl, hy'⟩ := (yields_of_token hthis nofun).mp hy
  obtain ⟨gap, text, rfl, hg, hrest⟩ := hs.exists_gap
  have hmark : (Scanner.Mode.afterParen rest).IsMark := by
    unfold Scanner.Mode.afterParen
    split <;> trivial
  have hhead : text.head? = rest.head? := head?_of_isMark hthis.placed hmark hy' hrest
  have hmode : Scanner.Mode.afterParen text = .afterParen rest := by
    rw [Scanner.Mode.afterParen, Scanner.Mode.afterParen, hhead]
  have hsolid : StartsSolid text := by
    rwa [StartsSolid, hhead]
  have hother := @Move.rightParen inFields before' gap text hg hsolid
  rw [hmode] at hother
  exact (yields_of_token hother nofun).mpr ⟨ls, rfl, ih.yields hy' hrest _⟩

/-- In front of a right brace: whether it is the last one does not depend on the blanks behind it. -/
theorem stable_of_rightBrace (ih : Stable ⟨.afterBrace rest, inFields, before ++ ['}'], rest⟩) :
    Stable ⟨.rightBrace, inFields, before, '}' :: rest⟩ := by
  intro ls text hy hs skipped hskip before'
  cases hskip
  obtain ⟨ls, rfl, hy'⟩ := (yields_of_token .rightBrace nofun).mp hy
  obtain ⟨gap, text, rfl, hg, hrest⟩ := hs.exists_gap
  suffices h : Yields ⟨.afterBrace (gap ++ text), inFields, before' ++ ['}'], gap ++ text⟩ ls from
    (yields_of_token .rightBrace nofun).mpr ⟨ls, rfl, h⟩
  by_cases hb : Blank rest
  · rw [Phase.afterBrace_of_blank hb] at hy' ih
    obtain ⟨rfl, _⟩ := (yields_of_stop .ending).mp hy'
    cases hrest.eq_nil
    rw [Phase.afterBrace_of_blank (blank_append.mpr ⟨hg, blank_nil⟩)]
    exact ih [] [] hy' hrest gap hg _
  · rw [Phase.afterBrace_of_not_blank hb] at hy' ih
    have hsolid : ¬Blank (gap ++ text) := fun h => not_blank_of_fields hy' hrest (blank_append.mp h).2
    rw [Phase.afterBrace_of_not_blank hsolid]
    exact ih ls text hy' hrest gap hg _

/-- In front of a mark behind which layout is skipped and a field group goes on. -/
theorem stable_of_fields (kind : TokenKind) {stop : Char} {layout : List Char} {inFields' : Bool} (hl : Layout layout)
    (hr : StartsSolid rest) (ih : Stable ⟨.fields, inFields', before ++ stop :: layout, rest⟩) (hk : kind ≠ .endOfInput)
    (hgap : ∀ gap, kind.Gap gap → Blank gap) (hskips : ∀ skipped, m.Skips skipped → skipped = [])
    (hmove : ∀ before layout rest, Layout layout → StartsSolid rest → Move ⟨m, inFields, before, stop :: (layout ++ rest)⟩
      (some (.cut kind before [stop])) ⟨.fields, inFields', before ++ stop :: layout, rest⟩) :
    Stable ⟨m, inFields, before, stop :: (layout ++ rest)⟩ := by
  intro ls text hy hs skipped hskip before'
  cases hskips skipped hskip
  obtain ⟨ls, rfl, hy'⟩ := (yields_of_token (hmove before layout rest hl hr) hk).mp hy
  obtain ⟨gap, text, rfl, hg, hrest⟩ := hs.exists_gap
  -- the scanner skips what is layout of the gap, and the rest of it belongs to the next name
  obtain ⟨layout', rest', hsplit, hl', hr'⟩ := exists_layout_split (gap ++ text)
  have hother := hmove before' layout' rest' hl' hr'
  rw [← hsplit] at hother
  have hfields := ih ls text hy' hrest gap (hgap gap hg) (before' ++ [stop])
  have hblank := @Phase.tokens_fields_blank inFields' rest' layout' hl'.blank (before' ++ [stop])
  rw [← hsplit, List.append_assoc, List.singleton_append] at hblank
  refine (yields_of_token hother hk).mpr ⟨ls, rfl, ?_⟩
  rw [Yields] at hfields ⊢
  rwa [← hblank]

/-- Every place at which the scanner finds what it expects is stable. -/
theorem stable (c : Cursor) (hp : c.Placed) : c.Stable := by
  refine scan_induction (P := Stable) ?stop ?move c hp
  case stop =>
    intro c t hstop ls text hy hs skipped hskip before'
    obtain ⟨rfl, he⟩ := (yields_of_stop hstop).mp hy
    cases hs.eq_nil
    cases hstop with
    | objectName ht =>
      cases hskip
      exact (yields_of_stop (.objectName (avoids_nil nameStops))).mpr ⟨rfl, rfl⟩
    | unopened =>
      cases hskip
      exact (yields_of_stop .unopened).mpr ⟨rfl, rfl⟩
    | ending => exact (yields_of_stop .ending).mpr ⟨rfl, rfl⟩
    | functionName | argument | unclosed | openBrace | fields => cases he
  case move =>
    intro c o c' hmove ih
    have hp' := hmove.placed
    cases hmove with
    | @objectName inFields before name rest m hn hm =>
      have hmark : Scanner.Mode.IsMark (if m = '(' then .leftParen else .dot) := by
        split <;> trivial
      exact stable_of_verbatim .objectName hn hp' hmark ih nofun (fun _ h => h) (fun _ h => h)
        fun _ _ _ hn => .objectName hn hm
    | dot => exact stable_of_mark .dot ih nofun (fun _ h => h) (fun _ h => h) fun _ _ => .dot
    | functionName hn =>
      exact stable_of_trimmed .function hn hp' trivial ih nofun (fun _ h => h) (fun _ h => h)
        (fun _ h => h.avoids_callStops) fun _ _ _ hn => .functionName hn
    | leftParen => exact stable_of_mark .leftParen ih nofun (fun _ h => h) (fun _ h => h) fun _ _ => .leftParen
    | argument ht =>
      exact stable_of_verbatim .argument ht hp' trivial ih nofun (fun _ h => h) (fun _ h => h) fun _ _ _ hn => .argument hn
    | rightParen hl hr => exact stable_of_rightParen hl hr ih
    | leftBrace hl hr =>
      exact stable_of_fields .leftBrace hl hr ih nofun (fun _ h => h) (fun _ h => h) fun _ _ _ hl hr => .leftBrace hl hr
    | field hn hc hpar =>
      exact stable_of_trimmed .fieldName hn hp' isMark_delimiterMode ih nofun (fun _ h => h) (fun _ h => h)
        (fun _ h => h.avoids_fieldStops) fun _ _ _ hn => .field hn hc hpar
    | fieldFunction hn =>
      exact stable_of_trimmed .function hn hp' trivial ih nofun (fun _ h => h) (fun _ h => h)
        (fun _ h => h.avoids_fieldStops) fun _ _ _ hn => .fieldFunction hn
    | comma hl hr =>
      exact stable_of_fields .comma hl hr ih nofun (fun _ h => h) (fun _ h => h) fun _ _ _ hl hr => .comma hl hr
    | rightBrace => exact stable_of_rightBrace ih

end Cursor

end RecordQuery
