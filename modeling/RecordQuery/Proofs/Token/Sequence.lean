import RecordQuery.Proofs.Token.Ending

/-!
# Which tokens follow each other

The kind of a token is told up to a few by the token before it (`TokenKind.Follows`), and what its text may hold by its kind and,
for the name of a call, by the dot before it (`Token.Worded`). Each mode of the scanner is entered behind tokens of certain kinds
only (`Scanner.Mode.behind`): a transition keeps this, also one that cuts nothing, so it holds through the scan.
-/

namespace RecordQuery

open Text

/-- The kind of the last of the tokens, if there is one. -/
def lastKind (read : List Token) : Option TokenKind := read.getLast?.map Token.kind

/-- The kinds with which a field can start, or the query can end in its place. -/
def TokenKind.fieldStarts : List TokenKind :=
  [fieldName, function, leftParen, leftBrace, rightBrace, comma, dot, error .fieldName]

/-- The kinds that can stand behind the name of a field. -/
def TokenKind.fieldEnds : List TokenKind := [leftBrace, rightBrace, comma, dot]

/-- A token of the second kind can stand behind one of the first kind, or be the first token. Whether a field group has been opened
tells how a query can end behind a right parenthesis. -/
inductive TokenKind.Follows (opened : Prop) : Option TokenKind → TokenKind → Prop where
  | first {kind : TokenKind} (h : kind ∈ [objectName, dot, leftParen, endOfInput]) : Follows opened none kind
  | objectName {kind : TokenKind} (h : kind ∈ [leftParen, dot]) : Follows opened (some objectName) kind
  | dot {kind : TokenKind} (h : kind ∈ [function, leftParen, error .functionName]) : Follows opened (some dot) kind
  | function : Follows opened (some function) leftParen
  | leftParen {kind : TokenKind} (h : kind ∈ [argument, rightParen, error .argument]) : Follows opened (some leftParen) kind
  | argument : Follows opened (some argument) rightParen
  | rightParen {kind : TokenKind} (h : kind ∈ [dot, leftBrace, error .openBrace]) : Follows opened (some rightParen) kind
  | unopened (h : ¬opened) : Follows opened (some rightParen) endOfInput
  | unclosed (h : opened) : Follows opened (some rightParen) (error .fieldName)
  | fieldName {kind : TokenKind} (h : kind ∈ fieldEnds) : Follows opened (some fieldName) kind
  | field {mark kind : TokenKind} (hm : mark ∈ [leftBrace, comma, rightBrace]) (h : kind ∈ fieldStarts) :
    Follows opened (some mark) kind
  | ending : Follows opened (some rightBrace) endOfInput

/-- What the text of a token can be behind a token of this kind: a name and an argument are not empty and avoid what ends them,
names but the first have no outer blanks, and marks and faults have the text that their kind tells. -/
def Token.Worded (previous : Option TokenKind) (t : Token) : Prop :=
  match t.kind with
  | .objectName => t.text ≠ "" ∧ Avoids nameStops t.text.toList
  | .argument => t.text ≠ "" ∧ Avoids argumentStops t.text.toList
  | .fieldName => t.text ≠ "" ∧ Trimmed t.text.toList ∧ Avoids fieldStops t.text.toList
  | .function => t.text ≠ "" ∧ Trimmed t.text.toList ∧
      Avoids (if previous = some .dot then callStops else fieldStops) t.text.toList
  | kind => ∀ w, kind.text? = some w → t.text = w

/-- Each of the tokens can stand behind those that are read and the ones before it, and its text is one that it can have there. -/
inductive Sequence : List Token → List Token → Prop where
  | nil {read : List Token} : Sequence read []
  | cons {read rest : List Token} {t : Token} (hk : TokenKind.Follows (Opened read) (lastKind read) t.kind)
    (hw : t.Worded (lastKind read)) (h : Sequence (read ++ [t]) rest) : Sequence read (t :: rest)

/-! ## Modes and the tokens before them -/

/-- The kinds of the last token before a scanner in this mode; nothing where it is at the start. -/
def Scanner.Mode.behind : Scanner.Mode → List (Option TokenKind)
  | .objectName => [none]
  | .dot => [none, some .objectName, some .rightParen, some .fieldName, some .leftBrace, some .comma, some .rightBrace]
  | .functionName => [some .dot]
  | .leftParen => [none, some .objectName, some .dot, some .function, some .leftBrace, some .comma, some .rightBrace]
  | .argument => [some .leftParen]
  | .rightParen => [some .leftParen, some .argument]
  | .leftBrace => [some .rightParen, some .fieldName, some .leftBrace, some .comma, some .rightBrace]
  | .fields => [some .leftBrace, some .comma, some .rightBrace]
  | .comma | .rightBrace => [some .fieldName, some .leftBrace, some .comma, some .rightBrace]
  | .ending => [some .rightBrace]

section Transitions

variable {m m' : Scanner.Mode} {o previous : Option TokenKind} {kind : TokenKind}

/-- A transition leads behind the token that it cuts, or behind the one before. -/
theorem Scanner.Mode.Next.mem_behind (h : m.Next o m') (hp : previous ∈ m.behind) : o.or previous ∈ m'.behind := by
  cases h with
  | objectName ho hm => rcases ho with rfl | rfl <;> rcases hm with rfl | rfl <;> simp_all [behind]
  | field ho hm => rcases ho with rfl | rfl <;> rcases hm with rfl | rfl | rfl | rfl <;> simp_all [behind]
  | functionName ho | argument ho | fieldFunction ho => rcases ho with rfl | rfl <;> simp_all [behind]
  | rightParen hm | rightBrace hm => rcases hm with rfl | rfl <;> simp [behind]
  | dot | leftParen | leftBrace | comma => simp [behind]

/-- A field starts behind each mark of a field group. -/
theorem follows_of_mem_fieldStarts {opened : Prop} (hp : previous ∈ Scanner.Mode.fields.behind)
    (h : kind ∈ TokenKind.fieldStarts) : TokenKind.Follows opened previous kind := by
  simp only [Scanner.Mode.behind, List.mem_cons, List.not_mem_nil, or_false] at hp
  rcases hp with rfl | rfl | rfl <;> exact .field (by decide) h

/-- What ends a field stands behind its name, or there is no name. -/
theorem follows_of_mem_fieldEnds {opened : Prop} (hp : previous = some .fieldName ∨ previous ∈ Scanner.Mode.fields.behind)
    (h : kind ∈ TokenKind.fieldEnds) : TokenKind.Follows opened previous kind := by
  rcases hp with rfl | hp
  · exact .fieldName h
  · have hall : ∀ k ∈ TokenKind.fieldEnds, k ∈ TokenKind.fieldStarts := by decide
    exact follows_of_mem_fieldStarts hp (hall kind h)

/-- A token that is cut can stand behind the one before. -/
theorem Scanner.Mode.Next.follows (h : m.Next (some kind) m') (hp : previous ∈ m.behind) (opened : Prop) :
    TokenKind.Follows opened previous kind := by
  generalize ho : some kind = o at h
  cases h with
  | objectName hn hm =>
    cases Mode.kind_eq (ho ▸ hn)
    cases List.mem_singleton.mp hp
    exact .first (by decide)
  | dot =>
    cases ho
    rcases List.mem_cons.mp hp with rfl | hp
    · exact .first (by decide)
    rcases List.mem_cons.mp hp with rfl | hp
    · exact .objectName (by decide)
    rcases List.mem_cons.mp hp with rfl | hp
    · exact .rightParen (by decide)
    exact follows_of_mem_fieldEnds (List.mem_cons.mp hp) (by decide)
  | functionName hn =>
    cases Mode.kind_eq (ho ▸ hn)
    cases List.mem_singleton.mp hp
    exact .dot (by decide)
  | leftParen =>
    cases ho
    rcases List.mem_cons.mp hp with rfl | hp
    · exact .first (by decide)
    rcases List.mem_cons.mp hp with rfl | hp
    · exact .objectName (by decide)
    rcases List.mem_cons.mp hp with rfl | hp
    · exact .dot (by decide)
    rcases List.mem_cons.mp hp with rfl | hp
    · exact .function
    exact follows_of_mem_fieldStarts hp (by decide)
  | argument hn =>
    cases Mode.kind_eq (ho ▸ hn)
    cases List.mem_singleton.mp hp
    exact .leftParen (by decide)
  | rightParen =>
    cases ho
    rcases List.mem_pair.mp hp with rfl | rfl
    · exact .leftParen (by decide)
    · exact .argument
  | leftBrace =>
    cases ho
    rcases List.mem_cons.mp hp with rfl | hp
    · exact .rightParen (by decide)
    exact follows_of_mem_fieldEnds (List.mem_cons.mp hp) (by decide)
  | field hn hm =>
    cases Mode.kind_eq (ho ▸ hn)
    exact follows_of_mem_fieldStarts hp (by decide)
  | fieldFunction hn =>
    cases Mode.kind_eq (ho ▸ hn)
    exact follows_of_mem_fieldStarts hp (by decide)
  | comma | rightBrace =>
    cases ho
    exact follows_of_mem_fieldEnds (List.mem_cons.mp hp) (by decide)

end Transitions

/-! ## Moves and stops -/

section Steps

variable {c c' : Cursor} {query before text : List Char} {read : List Token} {kind : TokenKind} {t : Token}
  {previous : Option TokenKind}

/-- Behind a mark the last token is of its kind. -/
theorem Behind.lastKind_eq {mark : TokenKind} {rest : List Char} (h : Behind query read mark rest) :
    lastKind read = some mark := by
  obtain ⟨t, ht, rfl, _⟩ := h
  rw [lastKind, ht, Option.map_some]

/-- The last token can stand behind the one before. -/
theorem Cursor.Past.follows (h : c.Past query read) (hp : lastKind read ∈ c.mode.behind) (hs : Stop c t) :
    TokenKind.Follows (Opened read) (lastKind read) t.kind := by
  have hknown := h.known
  cases hs with
  | objectName =>
    rw [List.mem_singleton.mp hp]
    exact .first (by simp)
  | functionName =>
    rw [List.mem_singleton.mp hp]
    exact .dot (by simp [Token.fault])
  | argument =>
    rw [List.mem_singleton.mp hp]
    exact .leftParen (by simp [Token.fault])
  | unopened =>
    obtain ⟨_, _, hbehind⟩ := hknown.resolve_left (by simp)
    rw [hbehind.lastKind_eq]
    exact .unopened fun ho => Bool.false_ne_true (h.opened.mpr ho)
  | unclosed =>
    obtain ⟨_, _, hbehind⟩ := hknown.resolve_left (by simp)
    rw [hbehind.lastKind_eq]
    exact .unclosed (h.opened.mp rfl)
  | openBrace hm =>
    obtain ⟨_, _, hbehind⟩ := hknown.resolve_left fun hbrace => hm (Option.some.inj hbrace)
    rw [hbehind.lastKind_eq]
    exact .rightParen (by simp [Token.fault])
  | fields => exact follows_of_mem_fieldStarts hp (by simp [Token.fault, TokenKind.fieldStarts])
  | ending =>
    rw [List.mem_singleton.mp hp]
    exact .ending

/-- A text that is cut as it stands is not empty. -/
theorem Token.eq_cut_of_verbatim? (h : some t = verbatim? kind before text) : text ≠ [] ∧ t = cut kind before text := by
  unfold verbatim? at h
  split at h
  · cases h
  next hne => exact ⟨hne, Option.some.inj h⟩

theorem Token.eq_cut_of_trimmed? (h : some t = trimmed? kind before text) :
    trim text ≠ [] ∧ t = cut kind (before ++ text.takeWhile isBlank) (trim text) := by
  unfold trimmed? at h
  split at h
  · cases h
  next hne => exact ⟨hne, Option.some.inj h⟩

/-- The text of a token that is cut as it stands avoids what ends it. -/
theorem Token.worded_verbatim {stops : List Char} (h : some t = verbatim? kind before text) (ha : Avoids stops text) :
    t.kind = kind ∧ t.text ≠ "" ∧ Avoids stops t.text.toList := by
  obtain ⟨hne, rfl⟩ := eq_cut_of_verbatim? h
  refine ⟨rfl, ?_, ?_⟩
  · simpa [cut] using hne
  · rwa [cut, String.toList_ofList]

theorem Token.worded_trimmed {stops : List Char} (h : some t = trimmed? kind before text) (ha : Avoids stops text) :
    t.kind = kind ∧ t.text ≠ "" ∧ Trimmed t.text.toList ∧ Avoids stops t.text.toList := by
  obtain ⟨hne, rfl⟩ := eq_cut_of_trimmed? h
  refine ⟨rfl, ?_, ?_⟩
  · simpa [cut] using hne
  · rw [cut, String.toList_ofList]
    exact ⟨trimmed_trim text, fun c hc => ha c (mem_of_mem_trim hc)⟩

/-- The text of a token that is cut is one that it can have behind the token before. -/
theorem Move.worded (h : Move c (some t) c') (hp : previous ∈ c.mode.behind) : t.Worded previous := by
  have htext := h.text
  generalize ho : some t = o at h
  cases h with
  | objectName hn hc =>
    obtain ⟨hk, hworded⟩ := Token.worded_verbatim ho hn
    simpa only [Token.Worded, hk] using hworded
  | argument ht =>
    obtain ⟨hk, hworded⟩ := Token.worded_verbatim ho ht
    simpa only [Token.Worded, hk] using hworded
  | field hn hc hm =>
    obtain ⟨hk, hworded⟩ := Token.worded_trimmed ho hn
    simpa only [Token.Worded, hk] using hworded
  | functionName hn =>
    obtain ⟨hk, hworded⟩ := Token.worded_trimmed ho hn
    have hdot : previous = some .dot := List.mem_singleton.mp hp
    simpa only [Token.Worded, hk, if_pos hdot] using hworded
  | fieldFunction hn =>
    obtain ⟨hk, hworded⟩ := Token.worded_trimmed ho hn
    have hdot : previous ≠ some .dot := by
      rintro rfl
      simp [Scanner.Mode.behind] at hp
    simpa only [Token.Worded, hk, if_neg hdot] using hworded
  | dot | leftParen | rightParen | leftBrace | comma | rightBrace =>
    cases ho
    exact htext

/-- The text of the last token is one that it can have behind any token. -/
theorem Stop.worded (h : Stop c t) : t.Worded previous := by
  have htext := h.text
  cases h <;> exact htext

end Steps

/-! ## Whole scans -/

/-- The last kind is that of the token that is cut, if one is, or the one before. -/
theorem lastKind_append (read : List Token) (o : Option Token) :
    lastKind (read ++ o.toList) = (o.map Token.kind).or (lastKind read) := by
  cases o <;> simp [lastKind]

/-- Nothing is cut in front of a query. -/
theorem Cursor.past_ofChars (query : List Char) : (ofChars query).Past query [] :=
  ⟨rfl, by simp [ofChars, Opened], rfl, rfl⟩

/-- From a place on the tokens go on as they can behind those that were cut before. -/
theorem Cursor.Past.sequence {c : Cursor} {query : List Char} {read : List Token} (h : c.Past query read) (hp : c.Placed)
    (hmode : lastKind read ∈ c.mode.behind) : Sequence read c.tokens := by
  refine scan_induction (P := fun c => ∀ read, c.Past query read → lastKind read ∈ c.mode.behind → Sequence read c.tokens)
    ?stop ?move c hp read h hmode
  case stop =>
    intro c t hs read h hmode
    rw [tokens_of_stop hs]
    exact .cons (h.follows hmode hs) hs.worded .nil
  case move =>
    intro c o c' hm ih read h hmode
    have hbehind : lastKind (read ++ o.toList) ∈ c'.mode.behind := by
      rw [lastKind_append]
      exact hm.next.mem_behind hmode
    have hrest := ih _ (h.move hm) hbehind
    rw [tokens_of_move hm]
    cases o with
    | none =>
      rw [Option.toList_none, List.append_nil] at hrest
      exact hrest
    | some t => exact .cons (hm.next.follows hmode (Opened read)) (hm.worded hmode) hrest

/-- A query has a token, each token is of a kind that can stand behind the one before it or that can come first, and its text is one
that it can have there. -/
theorem Scanner.tokens_follow (query : String) : (ofString query).tokens ≠ [] ∧ Sequence [] (ofString query).tokens := by
  have hplaced := Cursor.placed_ofChars query.toList
  have hpast := Cursor.past_ofChars query.toList
  obtain ⟨front, last, htokens, _⟩ := Cursor.exists_tokens_eq_append hplaced
  refine ⟨?_, hpast.sequence hplaced (List.mem_singleton_self none)⟩
  intro hnil
  exact absurd (htokens.symm.trans hnil) (List.append_ne_nil_of_right_ne_nil front (List.cons_ne_nil last []))

end RecordQuery
