import RecordQuery.Proofs.Text.Split
import RecordQuery.Token.Scanner

/-!
# What a scanner does from a place in a query

Between two steps a scanner stands at a place of its query (`Cursor`): the text before it is cut or dropped, the rest is ahead.
From there it either goes on to another place (`Move`), perhaps with a token, or it stops with the last token (`Stop`). Every
step of a scanner that stands where its mode expects is one of the two (`Cursor.move_or_stop`), and a move leads to such a place
again (`Move.placed`), so what holds of moves and stops holds of whole scans (`Cursor.scan_induction`).
-/

namespace RecordQuery

open Text

namespace Token

/-- The token that covers a word behind the text before it. -/
def cut (kind : TokenKind) (before word : List Char) : Token :=
  ⟨kind, String.ofList word, byteLength before, byteLength before + byteLength word⟩

/-- A fault found behind a text. -/
def fault (fault : ScanFault) (before : List Char) : Token :=
  ⟨.error fault, fault.message, byteLength before, byteLength before⟩

/-- A text as a token, unless there is none. -/
def verbatim? (kind : TokenKind) (before text : List Char) : Option Token :=
  if text = [] then none else some (cut kind before text)

/-- A text without its outer blanks as a token, unless nothing is left of it. -/
def trimmed? (kind : TokenKind) (before text : List Char) : Option Token :=
  if trim text = [] then none else some (cut kind (before ++ text.takeWhile isBlank) (trim text))

@[simp] theorem cut_kind (kind : TokenKind) (before word : List Char) : (cut kind before word).kind = kind := rfl

theorem verbatim?_of_ne_nil (kind : TokenKind) (before : List Char) {text : List Char} (h : text ≠ []) :
    verbatim? kind before text = some (cut kind before text) := if_neg h

theorem trimmed?_of_blank (kind : TokenKind) (before : List Char) {text : List Char} (h : Blank text) :
    trimmed? kind before text = none := if_pos (trim_eq_nil_iff.mpr h)

/-- Of a text that is not blank the word between its outer blanks is cut. -/
theorem trimmed?_of_not_blank (kind : TokenKind) (before : List Char) {text : List Char} (h : ¬Blank text) :
    trimmed? kind before text = some (cut kind (before ++ text.takeWhile isBlank) (trim text)) :=
  if_neg fun ht => h (trim_eq_nil_iff.mp ht)

end Token

/-- The test for the name of the requested record fails at its stops. -/
theorem name_test (c : Char) : (c != '(' && c != '.') = true ↔ c ∉ nameStops := by simp [nameStops]

theorem call_test (c : Char) : (c != '(') = true ↔ c ∉ callStops := by simp [callStops]

theorem argument_test (c : Char) : (c != ')' && c != '\n') = true ↔ c ∉ argumentStops := by simp [argumentStops]

theorem field_test (c : Char) : (!Scanner.isFieldDelimiter c) = true ↔ c ∉ fieldStops := by
  grind [Scanner.isFieldDelimiter, fieldStops]

/-- A place in a query between two steps of a scanner. -/
structure Cursor where
  /-- What the scanner looks for. -/
  mode : Scanner.Mode
  /-- Whether a field group has been opened. -/
  inFields : Bool
  /-- The text that is cut or dropped. -/
  before : List Char
  /-- The text that is left. -/
  ahead : List Char

namespace Cursor

/-- The scanner at a place. -/
def scanner (c : Cursor) : Scanner := ⟨byteLength c.before, [], c.ahead, c.inFields, some c.mode⟩

/-- The place in front of a query. -/
def ofChars (query : List Char) : Cursor := ⟨.objectName, false, [], query⟩

/-- The tokens from a place on. -/
def tokens (c : Cursor) : List Token := c.scanner.tokens

/-- What the text ahead of a mode looks like: a mode that cuts a mark off stands on it. -/
def Expects : Scanner.Mode → List Char → Prop
  | .dot, ahead => ahead.head? = some '.'
  | .leftParen, ahead => ahead.head? = some '('
  | .rightParen, ahead => ahead.head? = some ')'
  | .comma, ahead => ahead.head? = some ','
  | .rightBrace, ahead => ahead.head? = some '}'
  | .leftBrace, ahead => StartsSolid ahead ∧ ahead.head? ≠ some '.'
  | .ending, ahead => Blank ahead
  | _, _ => True

/-- A place at which the scanner finds what its mode expects. -/
def Placed (c : Cursor) : Prop := Expects c.mode c.ahead

/-- In front of a query a scanner stands where its mode expects, whatever the query is. -/
theorem placed_ofChars (query : List Char) : (ofChars query).Placed := trivial

end Cursor

/-- The mode behind an argument. -/
def Scanner.Mode.afterParen (ahead : List Char) : Scanner.Mode := if ahead.head? = some '.' then .dot else .leftBrace

/-- The mode behind a right brace. -/
def Scanner.Mode.afterBrace (ahead : List Char) : Scanner.Mode := if ahead.all isBlank then .ending else .fields

/-- A step that goes on: the place before it, the token that it cuts, if any, and the place after it. -/
inductive Move : Cursor → Option Token → Cursor → Prop where
  | objectName {inFields : Bool} {before name rest : List Char} {c : Char} (hn : Avoids nameStops name)
      (hc : c ∈ nameStops) :
      Move ⟨.objectName, inFields, before, name ++ c :: rest⟩ (Token.verbatim? .objectName before name)
        ⟨if c = '(' then .leftParen else .dot, inFields, before ++ name, c :: rest⟩
  | dot {inFields : Bool} {before rest : List Char} :
      Move ⟨.dot, inFields, before, '.' :: rest⟩ (some (.cut .dot before ['.']))
        ⟨.functionName, inFields, before ++ ['.'], rest⟩
  | functionName {inFields : Bool} {before name rest : List Char} (hn : Avoids callStops name) :
      Move ⟨.functionName, inFields, before, name ++ '(' :: rest⟩ (Token.trimmed? .function before name)
        ⟨.leftParen, inFields, before ++ name, '(' :: rest⟩
  | leftParen {inFields : Bool} {before rest : List Char} :
      Move ⟨.leftParen, inFields, before, '(' :: rest⟩ (some (.cut .leftParen before ['(']))
        ⟨.argument, inFields, before ++ ['('], rest⟩
  | argument {inFields : Bool} {before text rest : List Char} (ht : Avoids argumentStops text) :
      Move ⟨.argument, inFields, before, text ++ ')' :: rest⟩ (Token.verbatim? .argument before text)
        ⟨.rightParen, inFields, before ++ text, ')' :: rest⟩
  | rightParen {inFields : Bool} {before layout rest : List Char} (hl : Layout layout) (hr : StartsSolid rest) :
      Move ⟨.rightParen, inFields, before, ')' :: (layout ++ rest)⟩ (some (.cut .rightParen before [')']))
        ⟨.afterParen rest, inFields, before ++ ')' :: layout, rest⟩
  | leftBrace {inFields : Bool} {before layout rest : List Char} (hl : Layout layout) (hr : StartsSolid rest) :
      Move ⟨.leftBrace, inFields, before, '{' :: (layout ++ rest)⟩ (some (.cut .leftBrace before ['{']))
        ⟨.fields, true, before ++ '{' :: layout, rest⟩
  | field {inFields : Bool} {before name rest : List Char} {c : Char} (hn : Avoids fieldStops name)
      (hc : c ∈ fieldStops) (hp : c ≠ '(') :
      Move ⟨.fields, inFields, before, name ++ c :: rest⟩ (Token.trimmed? .fieldName before name)
        ⟨Scanner.delimiterMode c, inFields, before ++ name, c :: rest⟩
  | fieldFunction {inFields : Bool} {before name rest : List Char} (hn : Avoids fieldStops name) :
      Move ⟨.fields, inFields, before, name ++ '(' :: rest⟩ (Token.trimmed? .function before name)
        ⟨.leftParen, inFields, before ++ name, '(' :: rest⟩
  | comma {inFields : Bool} {before layout rest : List Char} (hl : Layout layout) (hr : StartsSolid rest) :
      Move ⟨.comma, inFields, before, ',' :: (layout ++ rest)⟩ (some (.cut .comma before [',']))
        ⟨.fields, inFields, before ++ ',' :: layout, rest⟩
  | rightBrace {inFields : Bool} {before rest : List Char} :
      Move ⟨.rightBrace, inFields, before, '}' :: rest⟩ (some (.cut .rightBrace before ['}']))
        ⟨.afterBrace rest, inFields, before ++ ['}'], rest⟩

/-- A step that ends the scan, with the last token. -/
inductive Stop : Cursor → Token → Prop where
  | objectName {inFields : Bool} {before text : List Char} (ht : Avoids nameStops text) :
      Stop ⟨.objectName, inFields, before, text⟩ (.cut .endOfInput before text)
  | functionName {inFields : Bool} {before text : List Char} (ht : Avoids callStops text) :
      Stop ⟨.functionName, inFields, before, text⟩ (.fault .functionName (before ++ text))
  | argument {inFields : Bool} {before text rest : List Char} (ht : Avoids argumentStops text)
      (hr : ∀ c, rest.head? = some c → c = '\n') :
      Stop ⟨.argument, inFields, before, text ++ rest⟩ (.fault .argument (before ++ text))
  | unopened {before : List Char} : Stop ⟨.leftBrace, false, before, []⟩ (.cut .endOfInput before [])
  | unclosed {before : List Char} : Stop ⟨.leftBrace, true, before, []⟩ (.fault .fieldName before)
  | openBrace {inFields : Bool} {before rest : List Char} {c : Char} (hc : c ≠ '{') :
      Stop ⟨.leftBrace, inFields, before, c :: rest⟩ (.fault .openBrace before)
  | fields {inFields : Bool} {before text : List Char} (ht : Avoids fieldStops text) :
      Stop ⟨.fields, inFields, before, text⟩ (.fault .fieldName (before ++ text))
  | ending {inFields : Bool} {before rest : List Char} :
      Stop ⟨.ending, inFields, before, rest⟩ (.cut .endOfInput before rest)

/-! ## Steps are moves or stops -/

namespace Cursor

variable {mode : Scanner.Mode} {inFields : Bool} {before a rest : List Char}

/-- Running over text up to where a test fails. -/
theorem runWhile_scanner {p : Char → Bool} (ha : ∀ c ∈ a, p c = true) (hr : ∀ c, rest.head? = some c → p c = false) :
    (scanner ⟨mode, inFields, before, a ++ rest⟩).runWhile p = ⟨byteLength before, a, rest, inFields, some mode⟩ := by
  simp only [Scanner.runWhile, scanner, takeWhile_run ha hr, dropWhile_run ha hr, List.nil_append]

/-- Running over all the text that is left. -/
theorem runWhile_scanner_all {p : Char → Bool} (ha : ∀ c ∈ a, p c = true) :
    (scanner ⟨mode, inFields, before, a⟩).runWhile p = ⟨byteLength before, a, [], inFields, some mode⟩ := by
  have h := @runWhile_scanner mode inFields before a [] p ha fun _ h => nomatch h
  rwa [List.append_nil] at h

/-- Dropping what was run over is going on behind it. -/
theorem enter_drop (m m' : Scanner.Mode) :
    (Scanner.mk (byteLength before) a rest inFields (some m)).drop.enter m' =
      scanner ⟨m', inFields, before ++ a, rest⟩ := by
  simp only [Scanner.drop, Scanner.enter, Scanner.position, scanner, byteLength_append]

/-- Skipping layout is going on behind it. -/
theorem skipLayout_scanner {layout : List Char} (hl : Layout layout) (hr : StartsSolid rest) :
    (scanner ⟨mode, inFields, before, layout ++ rest⟩).skipLayout = scanner ⟨mode, inFields, before ++ layout, rest⟩ := by
  rw [Scanner.skipLayout, runWhile_scanner hl hr]
  exact enter_drop mode mode

/-- Cutting off the mark on which a scanner stands. -/
theorem cutDelimiter_scanner {c : Char} (kind : TokenKind) (next : Scanner → Scanner) :
    (scanner ⟨mode, inFields, before, c :: rest⟩).cutDelimiter kind next =
      (some (.cut kind before [c]), next (scanner ⟨mode, inFields, before ++ [c], rest⟩)) := by
  simp [Scanner.cutDelimiter, scanner, Token.cut, Scanner.position]

/-- What was run over is cut as it stands. -/
theorem verbatim?_scanner (kind : TokenKind) (m : Scanner.Mode) :
    (Scanner.mk (byteLength before) a rest inFields (some m)).verbatim? kind = Token.verbatim? kind before a := by
  simp [Scanner.verbatim?, Token.verbatim?, Token.cut, Scanner.position]

theorem trimmed?_scanner (kind : TokenKind) (m : Scanner.Mode) :
    (Scanner.mk (byteLength before) a rest inFields (some m)).trimmed? kind = Token.trimmed? kind before a := by
  simp [Scanner.trimmed?, Token.trimmed?, Token.cut]

section Tests

variable {p : Char → Bool} {stops : List Char} (hp : ∀ c, p c = true ↔ c ∉ stops)

include hp

/-- The scanner runs over what avoids the stops of its mode. -/
theorem run_of_avoids (ha : Avoids stops a) : ∀ c ∈ a, p c = true := fun c hc => (hp c).mpr (ha c hc)

/-- The scanner does not run over a stop of its mode. -/
theorem stop_of_mem {c : Char} (hc : c ∈ stops) (rest : List Char) :
    ∀ d, (c :: rest).head? = some d → p d = false := by
  rintro d ⟨⟩
  exact Bool.eq_false_iff.mpr fun h => (hp c).mp h hc

end Tests

/-- What a step does in each mode. -/
theorem step_scanner (c : Cursor) : c.scanner.step =
    match c.mode with
    | .objectName => c.scanner.scanObjectName
    | .dot => c.scanner.cutDelimiter .dot (·.enter .functionName)
    | .functionName => c.scanner.scanFunctionName
    | .leftParen => c.scanner.cutDelimiter .leftParen (·.enter .argument)
    | .argument => c.scanner.scanArgument
    | .rightParen => c.scanner.cutDelimiter .rightParen fun s => s.skipLayout.enter (.afterParen s.skipLayout.rest)
    | .leftBrace => c.scanner.scanLeftBrace
    | .fields => c.scanner.scanFields
    | .comma => c.scanner.cutDelimiter .comma (·.skipLayout.enter .fields)
    | .rightBrace => c.scanner.cutDelimiter .rightBrace fun s => s.enter (.afterBrace s.rest)
    | .ending => c.scanner.finish := by
  obtain ⟨mode, inFields, before, ahead⟩ := c
  cases mode <;> rfl

/-- A move is a step of the scanner. -/
theorem step_of_move {c c' : Cursor} {o : Option Token} (h : Move c o c') : c.scanner.step = (o, c'.scanner) := by
  cases h with
  | @objectName inFields before name rest c hn hc =>
    rw [step_scanner]
    have hr := run_of_avoids name_test hn
    have hs := stop_of_mem name_test hc rest
    simp only [Scanner.scanObjectName, runWhile_scanner hr hs, verbatim?_scanner, enter_drop]
  | dot =>
    simp only [step_scanner, cutDelimiter_scanner]
    rfl
  | @functionName inFields before name rest hn =>
    rw [step_scanner]
    have hr := run_of_avoids call_test hn
    have hs := stop_of_mem call_test (List.mem_singleton_self '(') rest
    simp only [Scanner.scanFunctionName, runWhile_scanner hr hs, trimmed?_scanner, enter_drop]
  | leftParen =>
    simp only [step_scanner, cutDelimiter_scanner]
    rfl
  | @argument inFields before text rest ht =>
    rw [step_scanner]
    have hr := run_of_avoids argument_test ht
    have hs := stop_of_mem argument_test (List.mem_cons_self : ')' ∈ argumentStops) rest
    simp only [Scanner.scanArgument, runWhile_scanner hr hs, verbatim?_scanner, enter_drop]
  | @rightParen inFields before layout rest hl hr =>
    simp only [step_scanner, cutDelimiter_scanner, skipLayout_scanner hl hr, List.append_assoc]
    rfl
  | @leftBrace inFields before layout rest hl hr =>
    have hs : (scanner ⟨.leftBrace, inFields, before, '{' :: (layout ++ rest)⟩).scanLeftBrace =
        (scanner ⟨.leftBrace, inFields, before, '{' :: (layout ++ rest)⟩).cutDelimiter .leftBrace
          fun s => ({ s with inFields := true }).skipLayout.enter .fields := rfl
    have hf : { scanner ⟨.leftBrace, inFields, before ++ ['{'], layout ++ rest⟩ with inFields := true } =
        scanner ⟨.leftBrace, true, before ++ ['{'], layout ++ rest⟩ := rfl
    simp only [step_scanner, hs, cutDelimiter_scanner, hf, skipLayout_scanner hl hr, List.append_assoc]
    rfl
  | @field inFields before name rest c hn hc hp =>
    rw [step_scanner]
    have hr := run_of_avoids field_test hn
    have hs := stop_of_mem field_test hc rest
    simp only [Scanner.scanFields, runWhile_scanner hr hs, trimmed?_scanner, enter_drop, if_neg hp]
  | @fieldFunction inFields before name rest hn =>
    rw [step_scanner]
    have hr := run_of_avoids field_test hn
    have hs := stop_of_mem field_test (by decide : '(' ∈ fieldStops) rest
    simp only [Scanner.scanFields, runWhile_scanner hr hs, trimmed?_scanner, enter_drop, if_pos]
  | @comma inFields before layout rest hl hr =>
    simp only [step_scanner, cutDelimiter_scanner, skipLayout_scanner hl hr, List.append_assoc]
    rfl
  | rightBrace =>
    simp only [step_scanner, cutDelimiter_scanner]
    rfl

/-- Failing behind what was run over. -/
theorem failWith_run (f : ScanFault) (m : Scanner.Mode) :
    ((Scanner.mk (byteLength before) a rest inFields (some m)).failWith f).1 = some (.fault f (before ++ a)) := by
  simp [Scanner.failWith, Scanner.faultToken, Token.fault, Scanner.position]

/-- A stop is the last step of the scanner. -/
theorem step_of_stop {c : Cursor} {t : Token} (h : Stop c t) :
    c.scanner.step.1 = some t ∧ c.scanner.step.2.mode = none := by
  cases h with
  | objectName ht =>
    simp only [step_scanner, Scanner.scanObjectName, runWhile_scanner_all (run_of_avoids name_test ht),
      Scanner.finish, List.append_nil]
    exact ⟨rfl, trivial⟩
  | functionName ht =>
    simp only [step_scanner, Scanner.scanFunctionName, runWhile_scanner_all (run_of_avoids call_test ht)]
    exact ⟨failWith_run _ _, rfl⟩
  | @argument inFields before text rest ht hr =>
    have hs : ∀ c, rest.head? = some c → (c != ')' && c != '\n') = false := by
      intro c hc
      rw [hr c hc]
      rfl
    simp only [step_scanner, Scanner.scanArgument, runWhile_scanner (run_of_avoids argument_test ht) hs]
    split
    · exact absurd (hr ')' rfl) (by decide)
    · exact ⟨failWith_run _ _, rfl⟩
  | unopened => exact ⟨rfl, rfl⟩
  | unclosed => exact ⟨rfl, rfl⟩
  | @openBrace inFields before rest c hc =>
    simp only [step_scanner, Scanner.scanLeftBrace]
    split
    next r h =>
      cases h
      exact absurd rfl hc
    next h => cases h
    next => exact ⟨rfl, rfl⟩
  | fields ht =>
    simp only [step_scanner, Scanner.scanFields, runWhile_scanner_all (run_of_avoids field_test ht)]
    exact ⟨failWith_run _ _, rfl⟩
  | ending => exact ⟨rfl, rfl⟩

/-- A scanner that stands where its mode expects moves or stops. -/
theorem move_or_stop {c : Cursor} (h : c.Placed) : (∃ o c', Move c o c') ∨ ∃ t, Stop c t := by
  obtain ⟨mode, inFields, before, ahead⟩ := c
  cases mode with
  | objectName =>
    rcases avoids_or_split nameStops ahead with ha | ⟨name, c, rest, rfl, hn, hc⟩
    · exact .inr ⟨_, .objectName ha⟩
    · exact .inl ⟨_, _, .objectName hn hc⟩
  | functionName =>
    rcases avoids_or_split callStops ahead with ha | ⟨name, c, rest, rfl, hn, hc⟩
    · exact .inr ⟨_, .functionName ha⟩
    · cases List.mem_singleton.mp hc
      exact .inl ⟨_, _, .functionName hn⟩
  | argument =>
    rcases avoids_or_split argumentStops ahead with ha | ⟨text, c, rest, rfl, ht, hc⟩
    · rw [← List.append_nil ahead]
      exact .inr ⟨_, .argument ha fun _ h => nomatch h⟩
    · rcases List.mem_pair.mp hc with rfl | rfl
      · exact .inl ⟨_, _, .argument ht⟩
      · refine .inr ⟨_, .argument ht fun c hc => ?_⟩
        cases hc
        rfl
  | fields =>
    rcases avoids_or_split fieldStops ahead with ha | ⟨name, c, rest, rfl, hn, hc⟩
    · exact .inr ⟨_, .fields ha⟩
    · by_cases hp : c = '('
      · subst hp
        exact .inl ⟨_, _, .fieldFunction hn⟩
      · exact .inl ⟨_, _, .field hn hc hp⟩
  | leftBrace =>
    rcases ahead with _ | ⟨c, rest⟩
    · cases inFields with
      | false => exact .inr ⟨_, .unopened⟩
      | true => exact .inr ⟨_, .unclosed⟩
    · by_cases hc : c = '{'
      · subst hc
        obtain ⟨layout, rest, rfl, hl, hr⟩ := exists_layout_split rest
        exact .inl ⟨_, _, .leftBrace hl hr⟩
      · exact .inr ⟨_, .openBrace hc⟩
  | dot =>
    obtain ⟨rest, rfl⟩ := List.head?_eq_some_iff.mp h
    exact .inl ⟨_, _, .dot⟩
  | leftParen =>
    obtain ⟨rest, rfl⟩ := List.head?_eq_some_iff.mp h
    exact .inl ⟨_, _, .leftParen⟩
  | rightParen =>
    obtain ⟨rest, rfl⟩ := List.head?_eq_some_iff.mp h
    obtain ⟨layout, rest, rfl, hl, hr⟩ := exists_layout_split rest
    exact .inl ⟨_, _, .rightParen hl hr⟩
  | comma =>
    obtain ⟨rest, rfl⟩ := List.head?_eq_some_iff.mp h
    obtain ⟨layout, rest, rfl, hl, hr⟩ := exists_layout_split rest
    exact .inl ⟨_, _, .comma hl hr⟩
  | rightBrace =>
    obtain ⟨rest, rfl⟩ := List.head?_eq_some_iff.mp h
    exact .inl ⟨_, _, .rightBrace⟩
  | ending => exact .inr ⟨_, .ending⟩

end Cursor

/-- A scanner at a mark other than a parenthesis goes on in the mode that cuts the mark off. -/
theorem Cursor.expects_delimiterMode {c : Char} (hc : c ∈ fieldStops) (hp : c ≠ '(') (rest : List Char) :
    Cursor.Expects (Scanner.delimiterMode c) (c :: rest) := by
  simp only [fieldStops, List.mem_cons, List.not_mem_nil, or_false] at hc
  rcases hc with rfl | rfl | rfl | rfl | rfl
  · exact ⟨startsSolid_cons.mpr rfl, by simp⟩
  · rfl
  · rfl
  · rfl
  · exact absurd rfl hp

/-- From a mark other than a parenthesis the scanner goes on with the token of the mark. -/
theorem Cursor.exists_move_mark {inFields : Bool} {before rest : List Char} {c : Char} (hc : c ∈ fieldStops) (hp : c ≠ '(') :
    ∃ t c', Move ⟨Scanner.delimiterMode c, inFields, before, c :: rest⟩ (some t) c' ∧ t.kind ≠ .endOfInput := by
  simp only [fieldStops, List.mem_cons, List.not_mem_nil, or_false] at hc
  rcases hc with rfl | rfl | rfl | rfl | rfl
  · obtain ⟨layout, rest, rfl, hl, hr⟩ := exists_layout_split rest
    exact ⟨_, _, .leftBrace hl hr, nofun⟩
  · exact ⟨_, _, .rightBrace, nofun⟩
  · obtain ⟨layout, rest, rfl, hl, hr⟩ := exists_layout_split rest
    exact ⟨_, _, .comma hl hr, nofun⟩
  · exact ⟨_, _, .dot, nofun⟩
  · exact absurd rfl hp

/-- A move leads to a place where the scanner finds what its mode expects. -/
theorem Move.placed {c c' : Cursor} {o : Option Token} (h : Move c o c') : c'.Placed := by
  cases h with
  | objectName hn hc =>
    rcases List.mem_pair.mp hc with rfl | rfl
    · rfl
    · rfl
  | dot => trivial
  | functionName hn => rfl
  | leftParen => trivial
  | argument ht => rfl
  | @rightParen inFields before layout rest hl hr =>
    simp only [Cursor.Placed, Scanner.Mode.afterParen]
    split
    next hd => exact hd
    next hd => exact ⟨hr, hd⟩
  | leftBrace hl hr => trivial
  | field hn hc hp => exact Cursor.expects_delimiterMode hc hp _
  | fieldFunction hn => rfl
  | comma hl hr => trivial
  | @rightBrace inFields before rest =>
    simp only [Cursor.Placed, Scanner.Mode.afterBrace]
    split
    next hb => exact all_isBlank_iff.mp hb
    next => trivial

end RecordQuery
