import RecordQuery.Proofs.Query.Grammar
import RecordQuery.Proofs.Token.Scan
import RecordQuery.Selection.Reader

/-!
# Reading from a place in a query

The outcome of reading from a place (`Stage.outcome`) follows the moves of the scanner. A `Phase` is where reader and scanner
are, apart from the text; `Phase.Reads` says that a text leads from one phase to another before a given rest, whatever stands
in front. Such steps compose (`Phase.Reads.trans`).
-/

namespace RecordQuery

open Text Grammar

/-- What ends in an error does not end well. -/
theorem not_ok_of_error {outcome : Except ParseError Selection} {e : ParseError} {t : Selection}
    (h : outcome = .error e) : outcome ≠ .ok t := by
  intro ht
  rw [h] at ht
  cases ht

/-- What comes of a token: the outcome of going on, or the end of the reading. -/
def Progress.andThen (p : Progress) (next : Stage → Except ParseError Selection) : Except ParseError Selection :=
  match p with
  | .more stage => next stage
  | .done selection => .ok selection
  | .failed error => .error error

/-- An error stays one if going on differently gives the same error. -/
theorem Progress.andThen_eq_error {p : Progress} {f g : Stage → Except ParseError Selection} {e : ParseError}
    (h : p.andThen f = .error e) (hfg : ∀ stage, f stage = .error e → g stage = .error e) : p.andThen g = .error e := by
  cases p with
  | more stage => exact hfg stage h
  | done selection => exact h
  | failed error => exact h

namespace Stage

/-- What comes of reading from a place on. -/
def outcome (limit : Nat) (stage : Stage) (c : Cursor) : Except ParseError Selection := (stage.readAll limit c.tokens).1

/-- Tokens are read one by one; the first of them decides whether the others are. -/
theorem readAll_cons (limit : Nat) (stage : Stage) (t : Token) (ts : List Token) :
    (stage.readAll limit (t :: ts)).1 = (stage.read limit t).andThen fun s => (s.readAll limit ts).1 := by
  rw [readAll]
  cases stage.read limit t <;> rfl

variable {limit : Nat} {stage next : Stage} {c c' : Cursor} {t : Token}

/-- A move without a token changes nothing for the reader. -/
theorem outcome_of_silent (h : Move c none c') : stage.outcome limit c = stage.outcome limit c' := by
  rw [outcome, Cursor.tokens_of_move h]
  rfl

/-- A move with a token leaves the outcome to what the reader makes of the token. -/
theorem outcome_of_token (h : Move c (some t) c') :
    stage.outcome limit c = (stage.read limit t).andThen fun s => s.outcome limit c' := by
  rw [outcome, Cursor.tokens_of_move h]
  exact readAll_cons limit stage t c'.tokens

/-- A token that fits leads on. -/
theorem outcome_of_more (h : Move c (some t) c') (hr : stage.read limit t = .more next) :
    stage.outcome limit c = next.outcome limit c' := by
  rw [outcome_of_token h, hr]
  rfl

/-- A token that does not fit ends the reading. -/
theorem outcome_of_failed {e : ParseError} (h : Move c (some t) c') (hr : stage.read limit t = .failed e) :
    stage.outcome limit c = .error e := by
  rw [outcome_of_token h, hr]
  rfl

/-- After the last token there is nothing to go on with. -/
theorem outcome_of_stop (h : Stop c t) :
    stage.outcome limit c = (stage.read limit t).andThen fun _ => .error (.unexpectedEnd .moreInput) := by
  rw [outcome, Cursor.tokens_of_stop h]
  exact readAll_cons limit stage t []

/-- A fault of the scan is the outcome at every stage. -/
theorem outcome_of_fault {f : ScanFault} {before : List Char} (h : Stop c (.fault f before)) :
    stage.outcome limit c = .error (.scan f (byteLength before)) := by
  rw [outcome_of_stop h]
  rfl

end Stage

/-- A query is parsed by reading on from its start. -/
theorem Selection.parse_eq_outcome (query : String) (limit : Nat) :
    Selection.parse query limit = Stage.start.outcome limit (.ofChars query.toList) := rfl

/-- Where the reader and the scanner are, apart from the text. -/
structure Phase where
  stage : Stage
  mode : Scanner.Mode
  /-- Whether a field group has been opened. -/
  inFields : Bool

namespace Phase

/-- What comes of reading on between two texts. -/
def outcome (limit : Nat) (p : Phase) (before ahead : List Char) : Except ParseError Selection :=
  p.stage.outcome limit ⟨p.mode, p.inFields, before, ahead⟩

/-- The text leads from one phase to another if the rest follows. -/
def Reads (limit : Nat) (p : Phase) (text : List Char) (q : Phase) (rest : List Char) : Prop :=
  ∀ before, p.outcome limit before (text ++ rest) = q.outcome limit (before ++ text) rest

variable {limit : Nat} {p q r : Phase} {text text' rest : List Char}

/-- Where one text leads to a phase and another one on from it, both together lead all the way. -/
theorem Reads.trans (h : Reads limit p text q (text' ++ rest)) (h' : Reads limit q text' r rest) :
    Reads limit p (text ++ text') r rest := by
  intro before
  rw [List.append_assoc, h, h', List.append_assoc]

/-- A silent move of the scanner is read over. -/
theorem reads_of_silent {stage : Stage} {m m' : Scanner.Mode} {b b' : Bool}
    (h : ∀ before, Move ⟨m, b, before, text ++ rest⟩ none ⟨m', b', before ++ text, rest⟩) :
    Reads limit ⟨stage, m, b⟩ text ⟨stage, m', b'⟩ rest :=
  fun before => Stage.outcome_of_silent (h before)

/-- A move of the scanner with a token that fits is read over. -/
theorem reads_of_token {stage next : Stage} {m m' : Scanner.Mode} {b b' : Bool} {t : List Char → Token}
    (h : ∀ before, Move ⟨m, b, before, text ++ rest⟩ (some (t before)) ⟨m', b', before ++ text, rest⟩)
    (hr : ∀ before, stage.read limit (t before) = .more next) :
    Reads limit ⟨stage, m, b⟩ text ⟨next, m', b'⟩ rest :=
  fun before => Stage.outcome_of_more (h before) (hr before)

end Phase

end RecordQuery
