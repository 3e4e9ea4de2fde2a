import RecordQuery.Proofs.Text.Bytes
import RecordQuery.Proofs.Selection.Pieces
import RecordQuery.Proofs.Token.Automaton

/-!
# Why a scan ends

The last token of a query is told by the token before it, the text behind that token, and whether a field group has been opened.
`Halts` lists the ways in which a scan comes to its end behind a mark. What a scan knows of the tokens that it has cut
(`Cursor.Past`) is kept by every move and leads to one of these ways at every stop. No two of them agree on the same tokens
(`Ends.unique`), so each kind of last token has exactly its own conditions (`Scanner.tokens_ending`).
-/

namespace RecordQuery

open Text

/-- The text of a query from a byte offset on. -/
def Text.RestAt (query : List Char) (offset : Nat) (rest : List Char) : Prop :=
  ∃ front, query = front ++ rest ∧ offset = byteLength front

/-- The last of the tokens is of this kind, and this text of the query is behind it. -/
def Behind (query : List Char) (read : List Token) (mark : TokenKind) (rest : List Char) : Prop :=
  ∃ t, read.getLast? = some t ∧ t.kind = mark ∧ RestAt query t.stop rest

/-- One of the tokens opens a field group. -/
def Opened (read : List Token) : Prop := ∃ t ∈ read, t.kind = .leftBrace

/-- How a scan comes to its end behind a mark: the kind of the mark, the text behind it, the kind of the last token, and the text
from the last token on. -/
inductive Halts (opened : Prop) : TokenKind → List Char → TokenKind → List Char → Prop where
  /-- No parenthesis follows a dot. -/
  | functionName {rest : List Char} (hr : '(' ∉ rest) : Halts opened .dot rest (.error .functionName) []
  /-- A line feed or the end of the query comes before any right parenthesis. -/
  | argument {text rest : List Char} (ht : Avoids argumentStops text) (hr : ∀ c, rest.head? = some c → c = '\n') :
      Halts opened .leftParen (text ++ rest) (.error .argument) rest
  /-- Nothing follows a right parenthesis, and there is no field group. -/
  | unopened {rest : List Char} (ho : ¬opened) (hl : Layout rest) : Halts opened .rightParen rest .endOfInput []
  /-- Nothing follows a right parenthesis inside a field group. -/
  | unclosed {rest : List Char} (ho : opened) (hl : Layout rest) : Halts opened .rightParen rest (.error .fieldName) []
  /-- Neither a dot nor a left brace follows a right parenthesis. -/
  | openBrace {layout rest : List Char} {c : Char} (hl : Layout layout) (hc : isLayout c = false) (hd : c ≠ '.')
      (hb : c ≠ '{') : Halts opened .rightParen (layout ++ c :: rest) (.error .openBrace) (c :: rest)
  /-- No mark follows a left brace. -/
  | leftBrace {rest : List Char} (ho : opened) (hr : Avoids fieldStops rest) :
      Halts opened .leftBrace rest (.error .fieldName) []
  /-- No mark follows a comma. -/
  | comma {rest : List Char} (ho : opened) (hr : Avoids fieldStops rest) : Halts opened .comma rest (.error .fieldName) []
  /-- Something but no mark follows a right brace. -/
  | rightBrace {rest : List Char} (ho : opened) (hb : ¬Blank rest) (hr : Avoids fieldStops rest) :
      Halts opened .rightBrace rest (.error .fieldName) []
  /-- Blanks follow a right brace, or nothing. -/
  | ending {rest : List Char} (hb : Blank rest) : Halts opened .rightBrace rest .endOfInput rest

/-- The last token of a query: a fault covers nothing, and the end of the input all that is left. -/
def Token.last (kind : TokenKind) (before ahead : List Char) : Token :=
  match kind with
  | .error f => .fault f before
  | kind => .cut kind before ahead

/-- The last token of a query, told by the tokens before it. -/
inductive Ends (query : List Char) (read : List Token) : Token → Prop where
  /-- There is neither a parenthesis nor a dot in the query. -/
  | uncalled (ha : Avoids nameStops query) : Ends query read (.last .endOfInput [] query)
  | behind {mark kind : TokenKind} {rest before ahead : List Char} (hm : Behind query read mark rest)
      (hh : Halts (Opened read) mark rest kind ahead) (hq : before ++ ahead = query) : Ends query read (.last kind before ahead)

/-! ## The ways to the end exclude each other -/

namespace Text.RestAt

variable {query rest rest' : List Char} {offset : Nat}

/-- One text is left from an offset on. -/
theorem unique (h : RestAt query offset rest) (h' : RestAt query offset rest') : rest = rest' := by
  obtain ⟨front, rfl, rfl⟩ := h
  obtain ⟨front', hquery, hlength⟩ := h'
  -- of two texts in front with as many bytes, neither is longer
  have hempty {front text : List Char} (ht : byteLength front = byteLength (front ++ text)) : text = [] := by
    by_contra hne
    have hpos := byteLength_pos hne
    rw [byteLength_append] at ht
    omega
  rcases List.append_eq_append_iff.mp hquery with ⟨text, rfl, rfl⟩ | ⟨text, rfl, rfl⟩
  · rw [hempty hlength, List.nil_append]
  · rw [hempty hlength.symm, List.nil_append]

/-- Nothing is left at the end. -/
theorem offset_eq_byteLength (h : RestAt query offset []) : offset = byteLength query := by
  obtain ⟨front, rfl, rfl⟩ := h
  rw [List.append_nil]

end Text.RestAt

section Unique

variable {query : List Char} {read : List Token} {mark mark' kind kind' : TokenKind} {rest rest' ahead ahead' : List Char}
  {opened : Prop} {t t' : Token}

/-- There is one last token, and one text behind it. -/
theorem Behind.unique (h : Behind query read mark rest) (h' : Behind query read mark' rest') : mark = mark' ∧ rest = rest' := by
  obtain ⟨t, ht, rfl, hrest⟩ := h
  obtain ⟨t', ht', rfl, hrest'⟩ := h'
  rw [ht] at ht'
  cases ht'
  exact ⟨rfl, hrest.unique hrest'⟩

theorem Behind.ne_nil (h : Behind query read mark rest) : read ≠ [] := by
  rintro rfl
  obtain ⟨t, ht, _⟩ := h
  cases ht

/-- Layout does not reach over a character that is none. -/
theorem not_layout_append_cons {layout : List Char} {c : Char} (hc : isLayout c = false) : ¬Layout (layout ++ c :: rest) := by
  intro hl
  rw [hl c (List.mem_append_right layout List.mem_cons_self)] at hc
  cases hc

/-- The last token stands in the text behind the mark. -/
theorem Halts.ahead_isSuffix (h : Halts opened mark rest kind ahead) : ahead <:+ rest := by
  cases h with
  | argument => exact List.suffix_append _ _
  | openBrace => exact List.suffix_append _ _
  | ending => exact List.suffix_rfl
  | functionName | unopened | unclosed | leftBrace | comma | rightBrace => exact List.nil_suffix

/-- The text behind a mark is the end of the query. -/
theorem Behind.rest_isSuffix (h : Behind query read mark rest) : rest <:+ query := by
  obtain ⟨_, _, _, front, rfl, _⟩ := h
  exact List.suffix_append front rest

/-- Behind a right parenthesis the first character that is no layout decides. -/
theorem Halts.unique_openBrace {layout : List Char} {c : Char} (hl : Layout layout) (hc : isLayout c = false)
    (h : Halts opened .rightParen (layout ++ c :: rest) kind ahead) : kind = .error .openBrace ∧ ahead = c :: rest := by
  generalize hbehind : layout ++ c :: rest = behind at h
  cases h with
  | unopened ho hl' | unclosed ho hl' => exact absurd (hbehind ▸ hl') (not_layout_append_cons hc)
  | @openBrace layout' rest' c' hl' hc' hd hb =>
    have hdrop : c :: rest = c' :: rest' := by
      rw [← dropWhile_run hl (startsSolid_cons.mpr hc), hbehind, dropWhile_run hl' (startsSolid_cons.mpr hc')]
    exact ⟨rfl, hdrop.symm⟩

/-- Behind a mark there is one way to the end only. -/
theorem Halts.unique (h : Halts opened mark rest kind ahead) (h' : Halts opened mark rest kind' ahead') :
    kind = kind' ∧ ahead = ahead' := by
  cases h with
  | functionName | leftBrace | comma =>
    cases h'
    exact ⟨rfl, rfl⟩
  | @argument text _ ht hr =>
    generalize hbehind : text ++ ahead = behind at h'
    cases h' with
    | argument ht' hr' =>
      have hstop {rest : List Char} (hr : ∀ c, rest.head? = some c → c = '\n') :
          ∀ c, rest.head? = some c → (c != ')' && c != '\n') = false := by
        intro c hc
        rw [hr c hc]
        rfl
      refine ⟨rfl, ?_⟩
      rw [← dropWhile_run (Cursor.run_of_avoids argument_test ht) (hstop hr), hbehind,
        dropWhile_run (Cursor.run_of_avoids argument_test ht') (hstop hr')]
  | unopened ho hl =>
    cases h' with
    | unopened => exact ⟨rfl, rfl⟩
    | unclosed ho' => exact absurd ho' ho
    | openBrace hl' hc => exact absurd hl (not_layout_append_cons hc)
  | unclosed ho hl =>
    cases h' with
    | unopened ho' => exact absurd ho ho'
    | unclosed => exact ⟨rfl, rfl⟩
    | openBrace hl' hc => exact absurd hl (not_layout_append_cons hc)
  | openBrace hl hc hd hb =>
    obtain ⟨hkind, hahead⟩ := h'.unique_openBrace hl hc
    exact ⟨hkind.symm, hahead.symm⟩
  | rightBrace ho hb hr =>
    cases h' with
    | rightBrace => exact ⟨rfl, rfl⟩
    | ending hb' => exact absurd hb' hb
  | ending hb =>
    cases h' with
    | rightBrace ho hb' hr => exact absurd hb hb'
    | ending => exact ⟨rfl, rfl⟩

/-- The tokens before the last one tell it. -/
theorem Ends.unique (hr : Avoids nameStops query → read = []) (h : Ends query read t) (h' : Ends query read t') : t = t' := by
  cases h with
  | uncalled ha =>
    cases h' with
    | uncalled => rfl
    | behind hm => exact absurd (hr ha) hm.ne_nil
  | @behind _ _ _ before ahead hm hh hq =>
    cases h' with
    | uncalled ha => exact absurd (hr ha) hm.ne_nil
    | @behind _ _ _ before' ahead' hm' hh' hq' =>
      obtain ⟨rfl, rfl⟩ := hm.unique hm'
      obtain ⟨rfl, rfl⟩ := hh.unique hh'
      rw [List.append_cancel_right (hq.trans hq'.symm)]

end Unique

/-! ## What a scan knows of its tokens -/

/-- What the tokens cut so far say about a place, by the mode of the scanner. -/
def Cursor.Known (query : List Char) (read : List Token) (ahead : List Char) : Scanner.Mode → Prop
  | .objectName => read = [] ∧ ahead = query
  | .functionName => Behind query read .dot ahead
  | .argument => Behind query read .leftParen ahead
  | .leftBrace => ahead.head? = some '{' ∨ ∃ layout, Layout layout ∧ Behind query read .rightParen (layout ++ ahead)
  | .fields => Opened read ∧ ∃ layout, Layout layout ∧ (Behind query read .leftBrace (layout ++ ahead) ∨
      Behind query read .comma (layout ++ ahead) ∨
      Behind query read .rightBrace (layout ++ ahead) ∧ ¬Blank (layout ++ ahead))
  | .comma | .rightBrace => Opened read
  | .ending => Behind query read .rightBrace ahead
  | .dot | .leftParen | .rightParen => True

/-- The scan of the query has come to this place behind these tokens. -/
structure Cursor.Past (query : List Char) (read : List Token) (c : Cursor) : Prop where
  text : c.before ++ c.ahead = query
  opened : c.inFields = true ↔ Opened read
  known : Known query read c.ahead c.mode

section Past

variable {query before rest : List Char} {read : List Token} {kind : TokenKind} {c c' : Cursor} {o : Option Token} {t : Token}

/-- A field group is opened by a token that was cut before or by the one that is cut next. -/
theorem opened_append : Opened (read ++ o.toList) ↔ Opened read ∨ o.map Token.kind = some .leftBrace := by
  cases o with
  | none => simp [Opened]
  | some t => simp [Opened, or_and_right, exists_or]

/-- What is behind a token that was cut. -/
theorem behind_cut (word : List Char) (h : before ++ (word ++ rest) = query) :
    Behind query (read ++ [.cut kind before word]) kind rest := by
  refine ⟨_, List.getLast?_concat, rfl, before ++ word, ?_, (byteLength_append _ _).symm⟩
  rw [← h, List.append_assoc]

/-- A field group is opened by the token of a left brace, and by no other. -/
theorem Move.opened (h : Move c o c') : c'.inFields = true ↔ c.inFields = true ∨ o.map Token.kind = some .leftBrace := by
  have hname {kind : TokenKind} {o : Option Token} {inFields : Bool} (hk : kind ≠ .leftBrace)
      (ho : o.map Token.kind = none ∨ o.map Token.kind = some kind) :
      inFields = true ↔ inFields = true ∨ o.map Token.kind = some .leftBrace := by
    rcases ho with ho | ho <;> simp [ho, hk]
  cases h with
  | objectName | argument => exact hname (by decide) (Token.verbatim?_kind _ _ _)
  | functionName | field | fieldFunction => exact hname (by decide) (Token.trimmed?_kind _ _ _)
  | dot | leftParen | rightParen | leftBrace | comma | rightBrace => simp

/-- Text is neither lost nor added. -/
theorem Move.text_eq (h : Move c o c') : c'.before ++ c'.ahead = c.before ++ c.ahead := by
  cases h <;> simp

/-- What follows a name in a field group stands on its mark. -/
theorem known_delimiterMode {m : Char} (hm : m ∈ fieldStops) (hp : m ≠ '(') (ho : Opened read) :
    Cursor.Known query read (m :: rest) (Scanner.delimiterMode m) := by
  simp only [fieldStops, List.mem_cons, List.not_mem_nil, or_false] at hm
  rcases hm with rfl | rfl | rfl | rfl | rfl
  · exact .inl rfl
  · exact ho
  · exact ho
  · trivial
  · exact absurd rfl hp

/-- A move keeps what the scan knows, with the token that it cuts. -/
theorem Cursor.Past.move (h : c.Past query read) (hm : Move c o c') : c'.Past query (read ++ o.toList) := by
  have htext := hm.text_eq.trans h.text
  have hopened : c'.inFields = true ↔ Opened (read ++ o.toList) := by
    rw [hm.opened, opened_append, h.opened]
  refine ⟨htext, hopened, ?_⟩
  have hknown := h.known
  cases hm with
  | objectName hn hc => split <;> trivial
  | functionName | argument | fieldFunction => trivial
  | field hn hc hp => exact known_delimiterMode hc hp (opened_append.mpr (.inl hknown.1))
  | dot => exact behind_cut ['.'] h.text
  | leftParen => exact behind_cut ['('] h.text
  | @rightParen inFields before layout rest hl hr =>
    have hbehind := @behind_cut query before (layout ++ rest) read .rightParen [')'] h.text
    unfold Scanner.Mode.afterParen
    split
    · trivial
    · exact .inr ⟨layout, hl, hbehind⟩
  | @leftBrace inFields before layout rest hl hr =>
    exact ⟨hopened.mp rfl, layout, hl, .inl (behind_cut ['{'] h.text)⟩
  | @comma inFields before layout rest hl hr =>
    exact ⟨opened_append.mpr (.inl hknown), layout, hl, .inr (.inl (behind_cut [','] h.text))⟩
  | @rightBrace inFields before rest =>
    have hbehind := @behind_cut query before rest read .rightBrace ['}'] h.text
    by_cases hb : Blank rest
    · rw [Phase.afterBrace_of_blank hb]
      exact hbehind
    · rw [Phase.afterBrace_of_not_blank hb]
      exact ⟨opened_append.mpr (.inl hknown), [], layout_nil, .inr (.inr ⟨hbehind, hb⟩)⟩

/-- At a stop, what the scan knows tells the last token. -/
theorem Cursor.Past.stop (h : c.Past query read) (hp : c.Placed) (hs : Stop c t) : Ends query read t := by
  have hknown := h.known
  have htext := h.text
  cases hs with
  | objectName ht =>
    obtain ⟨_, rfl⟩ := hknown
    cases List.append_left_eq_self.mp htext
    exact .uncalled ht
  | @functionName inFields before text ht =>
    have hr : '(' ∉ text := fun hmem => ht '(' hmem (List.mem_singleton_self '(')
    exact .behind hknown (.functionName hr) ((List.append_nil _).trans htext)
  | @argument inFields before text rest ht hr =>
    exact .behind hknown (.argument ht hr) ((List.append_assoc _ _ _).trans htext)
  | unopened =>
    obtain ⟨layout, hl, hbehind⟩ := hknown.resolve_left nofun
    rw [List.append_nil] at hbehind
    exact .behind hbehind (.unopened (fun ho => nomatch h.opened.mpr ho) hl) htext
  | unclosed =>
    obtain ⟨layout, hl, hbehind⟩ := hknown.resolve_left nofun
    rw [List.append_nil] at hbehind
    exact .behind hbehind (.unclosed (h.opened.mp rfl) hl) htext
  | @openBrace inFields before rest m hm =>
    obtain ⟨layout, hl, hbehind⟩ := hknown.resolve_left fun hbrace => hm (Option.some.inj hbrace)
    obtain ⟨hsolid, hdot⟩ := hp
    have hd : m ≠ '.' := fun hd => hdot (congrArg some hd)
    exact .behind hbehind (.openBrace hl (startsSolid_cons.mp hsolid) hd hm) htext
  | @fields inFields before text ht =>
    obtain ⟨ho, layout, hl, hbehind⟩ := hknown
    have hr : Avoids fieldStops (layout ++ text) := avoids_append.mpr ⟨hl.blank.avoids_fieldStops, ht⟩
    have hq : before ++ text ++ [] = query := (List.append_nil _).trans htext
    rcases hbehind with hbehind | hbehind | ⟨hbehind, hb⟩
    · exact .behind hbehind (.leftBrace ho hr) hq
    · exact .behind hbehind (.comma ho hr) hq
    · exact .behind hbehind (.rightBrace ho hb hr) hq
  | ending => exact .behind hknown (.ending hp) htext

/-- From a place on the scan goes on to a last token that all tokens before it tell. -/
theorem Cursor.Past.exists_ends (h : c.Past query read) (hp : c.Placed) :
    ∃ more last, c.tokens = more ++ [last] ∧ Ends query (read ++ more) last := by
  refine scan_induction (P := fun c => ∀ read, c.Past query read → c.Placed →
    ∃ more last, c.tokens = more ++ [last] ∧ Ends query (read ++ more) last) ?stop ?move c hp read h hp
  case stop =>
    intro c t hs read h hp
    refine ⟨[], t, tokens_of_stop hs, ?_⟩
    rw [List.append_nil]
    exact h.stop hp hs
  case move =>
    intro c o c' hm ih read h _
    obtain ⟨more, last, htokens, hends⟩ := ih _ (h.move hm) hm.placed
    rw [List.append_assoc] at hends
    refine ⟨o.toList ++ more, last, ?_, hends⟩
    rw [tokens_of_move hm, htokens, List.append_assoc]

end Past

/-! ## The last token -/

/-- The last token of a query, and where each kind of it comes from. -/
structure Ending (query : List Char) (read : List Token) (last : Token) : Prop where
  /-- The end of the input is reached where there is neither a parenthesis nor a dot in the query, where only layout is behind a
  right parenthesis and no field group is opened, or where only blanks are behind a right brace. Its text is what is left. -/
  endOfInput : ∀ text, last.kind = .endOfInput ∧ last.text = text ↔
    Avoids nameStops query ∧ text = String.ofList query ∨
      (∃ rest, Behind query read .rightParen rest ∧ ¬Opened read ∧ Layout rest ∧ text = "") ∨
      ∃ rest, Behind query read .rightBrace rest ∧ Blank rest ∧ text = String.ofList rest
  /-- Without a parenthesis or a dot there is no other token. -/
  alone : Avoids nameStops query → read = []
  /-- No parenthesis follows a dot, up to the end of the query. -/
  functionName : ∀ offset, last.kind = .error .functionName ∧ last.start = offset ↔
    offset = byteLength query ∧ ∃ rest, Behind query read .dot rest ∧ '(' ∉ rest
  /-- An argument is broken off where a line feed or the end of the query comes before any right parenthesis. -/
  argument : ∀ offset, last.kind = .error .argument ∧ last.start = offset ↔
    ∃ text rest, Behind query read .leftParen (text ++ rest) ∧ Avoids argumentStops text ∧
      (rest = [] ∨ rest.head? = some '\n') ∧ RestAt query offset rest
  /-- The first character behind a right parenthesis that is no layout is neither a dot nor a left brace. -/
  openBrace : ∀ offset, last.kind = .error .openBrace ∧ last.start = offset ↔
    ∃ layout c rest, Behind query read .rightParen (layout ++ c :: rest) ∧ Layout layout ∧ isLayout c = false ∧ c ≠ '.' ∧
      c ≠ '{' ∧ RestAt query offset (c :: rest)
  /-- A field group is not closed at the end of the query: no mark follows the last one inside it, or only layout follows a right
  parenthesis. -/
  fieldName : ∀ offset, last.kind = .error .fieldName ∧ last.start = offset ↔
    offset = byteLength query ∧ Opened read ∧ ∃ rest,
      (Behind query read .leftBrace rest ∨ Behind query read .comma rest ∨ Behind query read .rightBrace rest ∧ ¬Blank rest) ∧
          Avoids fieldStops rest ∨
        Behind query read .rightParen rest ∧ Layout rest
  /-- There is no other kind of last token. -/
  terminal : last.kind = .endOfInput ∨ ∃ f, last.kind = .error f
  /-- The text of a fault is its message. -/
  message : ∀ f, last.kind = .error f → last.text = f.message

section Last

variable {query : List Char} {read : List Token} {last : Token}

/-- A line feed is the first of a text, or there is none. -/
theorem eq_nil_or_head?_iff {c : Char} {text : List Char} :
    text = [] ∨ text.head? = some c ↔ ∀ d, text.head? = some d → d = c := by
  cases text with
  | nil => simp
  | cons d text => simp [eq_comm]

/-- The last token is the end of the input or a fault. -/
theorem Ends.kind_cases (h : Ends query read last) : last.kind = .endOfInput ∨ ∃ f, last.kind = .error f := by
  cases h with
  | uncalled => exact .inl rfl
  | behind _ hh => cases hh <;> simp [Token.last, Token.fault]

/-- The text of a last token that is a fault is its message. -/
theorem Ends.text_of_error (h : Ends query read last) {f : ScanFault} (hk : last.kind = .error f) : last.text = f.message := by
  cases h with
  | uncalled => cases hk
  | @behind mark kind rest before ahead hm hh hq =>
    cases kind with
    | error g =>
      cases hk
      rfl
    | _ => cases hk

variable (ha : Avoids nameStops query → read = []) (h : Ends query read last)

include ha h

/-- The last token is a fault at an offset where there is a way to it behind a mark. -/
theorem Ends.error_iff {f : ScanFault} {offset : Nat} :
    last.kind = .error f ∧ last.start = offset ↔ ∃ mark rest ahead, Behind query read mark rest ∧
      Halts (Opened read) mark rest (.error f) ahead ∧ RestAt query offset ahead := by
  constructor
  · rintro ⟨hk, rfl⟩
    cases h with
    | uncalled => cases hk
    | @behind mark kind rest before ahead hm hh hq =>
      cases kind with
      | error g =>
        cases hk
        exact ⟨mark, rest, ahead, hm, hh, before, hq.symm, rfl⟩
      | _ => cases hk
  · rintro ⟨mark, rest, ahead, hm, hh, before, hq, rfl⟩
    rw [h.unique ha (.behind hm hh hq.symm)]
    exact ⟨rfl, rfl⟩

/-- The last token is the end of the input where there is no other token to look for, or where there is a way to it behind a
mark. -/
theorem Ends.endOfInput_iff {text : String} :
    last.kind = .endOfInput ∧ last.text = text ↔ Avoids nameStops query ∧ text = String.ofList query ∨
      ∃ mark rest ahead, Behind query read mark rest ∧ Halts (Opened read) mark rest .endOfInput ahead ∧
        text = String.ofList ahead := by
  constructor
  · rintro ⟨hk, rfl⟩
    cases h with
    | uncalled hn => exact .inl ⟨hn, rfl⟩
    | @behind mark kind rest before ahead hm hh hq =>
      cases kind with
      | endOfInput => exact .inr ⟨mark, rest, ahead, hm, hh, rfl⟩
      | _ => cases hk
  · rintro (⟨hn, rfl⟩ | ⟨mark, rest, ahead, hm, hh, rfl⟩)
    · rw [h.unique ha (.uncalled hn)]
      exact ⟨rfl, rfl⟩
    · obtain ⟨before, hq⟩ := hh.ahead_isSuffix.trans hm.rest_isSuffix
      rw [h.unique ha (.behind hm hh hq)]
      exact ⟨rfl, rfl⟩

/-- The tokens before the last one and the text behind them tell what it is. -/
theorem Ends.ending : Ending query read last := by
  have hend : RestAt query (byteLength query) [] := ⟨query, (List.append_nil query).symm, rfl⟩
  refine ⟨?endOfInput, ha, ?functionName, ?argument, ?openBrace, ?fieldName, h.kind_cases, fun f => h.text_of_error⟩
  case endOfInput =>
    intro text
    rw [h.endOfInput_iff ha]
    refine or_congr_right ⟨?_, ?_⟩
    · rintro ⟨mark, rest, ahead, hm, hh, rfl⟩
      cases hh with
      | unopened ho hl => exact .inl ⟨rest, hm, ho, hl, rfl⟩
      | ending hb => exact .inr ⟨rest, hm, hb, rfl⟩
    · rintro (⟨rest, hm, ho, hl, rfl⟩ | ⟨rest, hm, hb, rfl⟩)
      · exact ⟨_, _, _, hm, .unopened ho hl, rfl⟩
      · exact ⟨_, _, _, hm, .ending hb, rfl⟩
  case functionName =>
    intro offset
    rw [h.error_iff ha]
    constructor
    · rintro ⟨mark, rest, ahead, hm, hh, hat⟩
      cases hh with
      | functionName hr => exact ⟨hat.offset_eq_byteLength, rest, hm, hr⟩
    · rintro ⟨rfl, rest, hm, hr⟩
      exact ⟨_, _, _, hm, .functionName hr, hend⟩
  case argument =>
    intro offset
    simp only [h.error_iff ha, eq_nil_or_head?_iff]
    constructor
    · rintro ⟨mark, rest, ahead, hm, hh, hat⟩
      cases hh with
      | @argument text _ ht hr => exact ⟨text, ahead, hm, ht, hr, hat⟩
    · rintro ⟨text, rest, hm, ht, hr, hat⟩
      exact ⟨_, _, _, hm, .argument ht hr, hat⟩
  case openBrace =>
    intro offset
    rw [h.error_iff ha]
    constructor
    · rintro ⟨mark, rest, ahead, hm, hh, hat⟩
      cases hh with
      | @openBrace layout rest c hl hc hd hb => exact ⟨layout, c, rest, hm, hl, hc, hd, hb, hat⟩
    · rintro ⟨layout, c, rest, hm, hl, hc, hd, hb, hat⟩
      exact ⟨_, _, _, hm, .openBrace hl hc hd hb, hat⟩
  case fieldName =>
    intro offset
    rw [h.error_iff ha]
    constructor
    · rintro ⟨mark, rest, ahead, hm, hh, hat⟩
      cases hh with
      | unclosed ho hl => exact ⟨hat.offset_eq_byteLength, ho, rest, .inr ⟨hm, hl⟩⟩
      | leftBrace ho hr => exact ⟨hat.offset_eq_byteLength, ho, rest, .inl ⟨.inl hm, hr⟩⟩
      | comma ho hr => exact ⟨hat.offset_eq_byteLength, ho, rest, .inl ⟨.inr (.inl hm), hr⟩⟩
      | rightBrace ho hb hr => exact ⟨hat.offset_eq_byteLength, ho, rest, .inl ⟨.inr (.inr ⟨hm, hb⟩), hr⟩⟩
    · rintro ⟨rfl, ho, rest, ⟨hm | hm | ⟨hm, hb⟩, hr⟩ | ⟨hm, hl⟩⟩
      · exact ⟨_, _, _, hm, .leftBrace ho hr, hend⟩
      · exact ⟨_, _, _, hm, .comma ho hr, hend⟩
      · exact ⟨_, _, _, hm, .rightBrace ho hb hr, hend⟩
      · exact ⟨_, _, _, hm, .unclosed ho hl, hend⟩

end Last

/-- A query ends in one token, which is the end of the input or a fault, each under its own conditions on the tokens before it and
on the text behind them. -/
theorem Scanner.tokens_ending (query : String) :
    ∃ read last, (ofString query).tokens = read ++ [last] ∧ Ending query.toList read last := by
  have hopened : (Cursor.ofChars query.toList).inFields = true ↔ Opened [] := by
    simp [Cursor.ofChars, Opened]
  have hpast : (Cursor.ofChars query.toList).Past query.toList [] := ⟨rfl, hopened, rfl, rfl⟩
  obtain ⟨read, last, htokens, hends⟩ := hpast.exists_ends (Cursor.placed_ofChars query.toList)
  refine ⟨read, last, htokens, hends.ending fun ha => ?alone⟩
  case alone =>
    have hsingle := (Cursor.tokens_of_stop (.objectName ha)).symm.trans htokens
    exact (List.append_eq_singleton_iff.mp hsingle.symm).elim And.left fun h => nomatch h.2

end RecordQuery
