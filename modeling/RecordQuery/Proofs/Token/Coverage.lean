import RecordQuery.Proofs.Text.Bytes
import RecordQuery.Proofs.Token.Scan

/-!
# What the tokens of a query cover

The tokens stand in the query where their spans say, one behind the other, and between them there are blanks only: nothing that
counts is lost, and nothing is read twice. `Covers` says this of the tokens from a place on, and holds of every place at which
a scanner finds what it expects (`Cursor.covers_tokens`); the facts about spans are read off it by induction.
-/

namespace RecordQuery

open Text

/-- Whether a token is a fault of the scan. -/
def Token.isFault (t : Token) : Bool :=
  match t.kind with
  | .error _ => true
  | _ => false

/-- The part of the query that a token covers: its text, or nothing if it is a fault. -/
def Token.covered (t : Token) : String := if t.isFault then "" else t.text

/-- The character at an offset is part of the token. -/
def Token.Holds (t : Token) (offset : Nat) (c : Char) : Prop := t.start ≤ offset ∧ offset + c.utf8Size ≤ t.stop

instance (t : Token) (offset : Nat) (c : Char) : Decidable (t.Holds offset c) := inferInstanceAs (Decidable (_ ∧ _))

/-- A token stands behind an offset, with blanks only in between unless it is a fault. -/
def Token.Follows (query : String) (stop : Nat) (t : Token) : Prop :=
  stop ≤ t.start ∧ (t.isFault = false → ∃ gap, Blank gap.toList ∧ StandsAt query gap stop t.start)

/-- Behind the text before a place, tokens cover the text ahead: words with blanks in front of them, up to one that takes all
that is left or to a fault. -/
inductive Covers : List Char → List Char → List Token → Prop where
  | word {before gap word rest : List Char} {kind : TokenKind} {ts : List Token} (hg : Blank gap) (hw : word ≠ [])
      (hk : kind.isTerminal = false) (h : Covers (before ++ gap ++ word) rest ts) :
      Covers before (gap ++ (word ++ rest)) (.cut kind (before ++ gap) word :: ts)
  | ending {before gap rest : List Char} (hg : Blank gap) : Covers before (gap ++ rest) [.cut .endOfInput (before ++ gap) rest]
  | fault {before skipped rest : List Char} {f : ScanFault} : Covers before (skipped ++ rest) [.fault f (before ++ skipped)]

namespace Covers

variable {before ahead rest : List Char} {ts : List Token}

/-! ## Tokens of a scan -/

theorem ending_here : Covers before rest [.cut .endOfInput before rest] := by
  have h := @Covers.ending before [] rest blank_nil
  rwa [List.nil_append, List.append_nil] at h

theorem fault_here {f : ScanFault} : Covers before rest [.fault f before] := by
  have h := @Covers.fault before [] rest f
  rwa [List.nil_append, List.append_nil] at h

theorem fault_behind {f : ScanFault} : Covers before rest [.fault f (before ++ rest)] := by
  have h := @Covers.fault before rest [] f
  rwa [List.append_nil] at h

/-- Blanks that were dropped may as well be ahead. -/
theorem of_blank {gap : List Char} (hg : Blank gap) (h : Covers (before ++ gap) rest ts) : Covers before (gap ++ rest) ts := by
  generalize hb : before ++ gap = front at h
  cases h with
  | @word _ gap' word rest kind ts hg' hw hk h =>
    subst hb
    rw [List.append_assoc before] at h ⊢
    rw [← List.append_assoc gap]
    exact .word (blank_append.mpr ⟨hg, hg'⟩) hw hk h
  | @ending _ gap' rest hg' =>
    subst hb
    rw [List.append_assoc, ← List.append_assoc gap]
    exact .ending (blank_append.mpr ⟨hg, hg'⟩)
  | @fault _ skipped rest f =>
    subst hb
    rw [List.append_assoc, ← List.append_assoc gap]
    exact .fault

/-- A mark covers its character. -/
theorem of_mark {kind : TokenKind} (hk : kind.isTerminal = false) (c : Char) (h : Covers (before ++ [c]) rest ts) :
    Covers before (c :: rest) (.cut kind before [c] :: ts) := by
  rw [← List.append_nil (before)] at h
  have hc := Covers.word blank_nil (List.cons_ne_nil c []) hk h
  rwa [List.append_nil] at hc

/-- Blanks behind a mark belong to no token. -/
theorem of_mark_blank {kind : TokenKind} (hk : kind.isTerminal = false) {c : Char} {gap : List Char} (hg : Blank gap)
    (h : Covers (before ++ c :: gap) rest ts) : Covers before (c :: (gap ++ rest)) (.cut kind before [c] :: ts) := by
  refine of_mark hk c (of_blank hg ?_)
  rwa [List.append_assoc, List.singleton_append]

/-- A text as it stands is covered by its token, and an empty one needs none. -/
theorem of_verbatim {kind : TokenKind} (hk : kind.isTerminal = false) {word : List Char}
    (h : Covers (before ++ word) rest ts) : Covers before (word ++ rest) ((Token.verbatim? kind before word).toList ++ ts) := by
  by_cases hw : word = []
  · subst hw
    rw [List.append_nil] at h
    exact h
  · rw [Token.verbatim?_of_ne_nil _ _ hw]
    rw [← List.append_nil before] at h
    have hc := Covers.word blank_nil hw hk h
    rwa [List.append_nil] at hc

/-- A text is covered by the token of its word, and the blanks around the word need none. -/
theorem of_trimmed {kind : TokenKind} (hk : kind.isTerminal = false) {word : List Char}
    (h : Covers (before ++ word) rest ts) : Covers before (word ++ rest) ((Token.trimmed? kind before word).toList ++ ts) := by
  by_cases hb : Blank word
  · rw [Token.trimmed?_of_blank _ _ hb]
    exact of_blank hb h
  · rw [Token.trimmed?_of_not_blank _ _ hb]
    obtain ⟨v, hv, hsplit⟩ := exists_trim_split word
    generalize hu : word.takeWhile isBlank = u at hsplit
    generalize hw : trim word = w at hsplit
    have hblank : Blank u := hu ▸ blank_takeWhile word
    have hne : w ≠ [] := fun hnil => hb (trim_eq_nil_iff.mp (hw.trans hnil))
    rw [hsplit, ← List.append_assoc u, ← List.append_assoc before, ← List.append_assoc before] at h
    rw [hsplit, List.append_assoc, List.append_assoc]
    exact .word hblank hne hk (of_blank hv h)

end Covers

/-- From a place at which the scanner finds what it expects, the tokens cover the text ahead. -/
theorem Cursor.covers_tokens {c : Cursor} (h : c.Placed) : Covers c.before c.ahead c.tokens := by
  refine scan_induction (P := fun c => Covers c.before c.ahead c.tokens) ?stop ?move c h
  case stop =>
    intro c t hs
    rw [tokens_of_stop hs]
    cases hs with
    | objectName ht => exact .ending_here
    | functionName ht => exact .fault_behind
    | argument ht hr => exact .fault
    | unopened => exact .ending_here
    | unclosed => exact .fault_here
    | openBrace hc => exact .fault_here
    | fields ht => exact .fault_behind
    | ending => exact .ending_here
  case move =>
    intro c o c' hm ih
    rw [tokens_of_move hm]
    cases hm with
    | objectName hn hc => exact .of_verbatim rfl ih
    | dot => exact .of_mark rfl '.' ih
    | functionName hn => exact .of_trimmed rfl ih
    | leftParen => exact .of_mark rfl '(' ih
    | argument ht => exact .of_verbatim rfl ih
    | rightParen hl hr => exact .of_mark_blank rfl hl.blank ih
    | leftBrace hl hr => exact .of_mark_blank rfl hl.blank ih
    | field hn hc hp => exact .of_trimmed rfl ih
    | fieldFunction hn => exact .of_trimmed rfl ih
    | comma hl hr => exact .of_mark_blank rfl hl.blank ih
    | rightBrace => exact .of_mark rfl '}' ih

/-! ## Facts about spans -/

/-- A token behind which the scan goes on is no fault. -/
theorem Token.isFault_of_not_terminal {t : Token} (h : t.kind.isTerminal = false) : t.isFault = false := by
  unfold isFault
  split
  next f hf =>
    rw [hf] at h
    cases h
  next => rfl

/-- A token that is cut covers its word, unless it is a fault. -/
theorem Token.covered_cut (kind : TokenKind) (before word : List Char) (h : (cut kind before word).isFault = false) :
    (cut kind before word).covered = String.ofList word := by
  rw [covered, h]
  rfl

namespace Covers

variable {before ahead : List Char} {ts : List Token}

/-- Each token covers its part of the query. -/
theorem standsAt (h : Covers before ahead ts) :
    ∀ t ∈ ts, StandsAt (String.ofList (before ++ ahead)) t.covered t.start t.stop := by
  induction h with
  | @word before gap word rest kind ts hg hw hk _ ih =>
    rw [List.append_assoc _ word, List.append_assoc before] at ih
    refine List.forall_mem_cons.mpr ⟨?_, ih⟩
    rw [Token.covered_cut kind _ _ (Token.isFault_of_not_terminal hk), ← List.append_assoc before]
    exact standsAt_ofList (before ++ gap) word rest
  | @ending before gap rest hg =>
    refine List.forall_mem_singleton.mpr ?_
    have hs := standsAt_ofList (before ++ gap) rest []
    rwa [List.append_nil, List.append_assoc] at hs
  | @fault before skipped rest f =>
    refine List.forall_mem_singleton.mpr ?_
    have hs := standsAt_ofList (before ++ skipped) [] rest
    rwa [List.append_assoc] at hs

/-- Only the last token may cover nothing. -/
theorem start_lt_stop (h : Covers before ahead ts) : ∀ t ∈ ts, t.kind.isTerminal = false → t.start < t.stop := by
  induction h with
  | @word before gap word rest kind ts hg hw hk _ ih =>
    refine List.forall_mem_cons.mpr ⟨fun _ => ?_, ih⟩
    exact Nat.lt_add_of_pos_right (byteLength_pos hw)
  | ending hg => exact List.forall_mem_singleton.mpr nofun
  | fault => exact List.forall_mem_singleton.mpr nofun

/-- The tokens stand behind the place. -/
theorem byteLength_le_start (h : Covers before ahead ts) : ∀ t ∈ ts, byteLength before ≤ t.start := by
  induction h with
  | @word before gap word rest kind ts hg hw hk _ ih =>
    refine List.forall_mem_cons.mpr ⟨?_, fun t ht => Nat.le_trans ?_ (ih t ht)⟩
    · simp only [Token.cut, byteLength_append]
      omega
    · simp only [byteLength_append]
      omega
  | @ending before gap rest hg =>
    refine List.forall_mem_singleton.mpr ?_
    simp only [Token.cut, byteLength_append]
    omega
  | @fault before skipped rest f =>
    refine List.forall_mem_singleton.mpr ?_
    simp only [Token.fault, byteLength_append]
    omega

/-- The first of the tokens follows the place. -/
theorem follows (h : Covers before ahead ts) :
    ∀ t ∈ ts.head?, t.Follows (String.ofList (before ++ ahead)) (byteLength before) := by
  intro t ht
  refine ⟨h.byteLength_le_start t (List.mem_of_mem_head? ht), fun hf => ?_⟩
  have hgap {gap rest : List Char} (hg : Blank gap) : ∃ w : String, Blank w.toList ∧
      StandsAt (String.ofList (before ++ (gap ++ rest))) w (byteLength before) (byteLength (before ++ gap)) := by
    refine ⟨String.ofList gap, by rwa [String.toList_ofList], ?_⟩
    rw [byteLength_append]
    exact standsAt_ofList before gap rest
  cases h with
  | word hg hw hk _ =>
    cases ht
    exact hgap hg
  | ending hg =>
    cases ht
    exact hgap hg
  | fault =>
    cases ht
    cases hf

/-- Each token follows the one before it. -/
theorem isChain (h : Covers before ahead ts) :
    ts.IsChain fun t u => u.Follows (String.ofList (before ++ ahead)) t.stop := by
  induction h with
  | @word before gap word rest kind ts hg hw hk h ih =>
    have hf := h.follows
    rw [List.append_assoc _ word, List.append_assoc before] at ih hf
    rw [byteLength_append _ word] at hf
    cases ts with
    | nil => exact .singleton _
    | cons u us => exact .cons_cons (hf u rfl) ih
  | ending hg => exact .singleton _
  | fault => exact .singleton _

/-- The end of the input is at the end of the query. -/
theorem stop_of_endOfInput (h : Covers before ahead ts) :
    ∀ t ∈ ts, t.kind = .endOfInput → t.stop = byteLength (before ++ ahead) := by
  induction h with
  | @word before gap word rest kind ts hg hw hk _ ih =>
    rw [List.append_assoc _ word, List.append_assoc before] at ih
    refine List.forall_mem_cons.mpr ⟨fun he => ?_, ih⟩
    rw [Token.cut_kind] at he
    rw [he] at hk
    cases hk
  | @ending before gap rest hg =>
    refine List.forall_mem_singleton.mpr fun _ => ?_
    rw [← List.append_assoc, byteLength_append (before ++ gap)]
    rfl
  | fault => exact List.forall_mem_singleton.mpr nofun

/-- Where the scan came to the end of the input, a character ahead that is no blank is part of exactly one of the tokens. -/
theorem countP_holds (h : Covers before ahead ts) (he : ∃ t ∈ ts, t.kind = .endOfInput) {front back : List Char} {c : Char}
    (hc : isBlank c = false) (ha : ahead = front ++ c :: back) :
    ts.countP (·.Holds (byteLength (before ++ front)) c) = 1 := by
  induction h generalizing front with
  | @word before gap word rest kind ts hg hw hk h ih =>
    obtain ⟨front, rfl, hword⟩ := hg.split_append hc ha
    have he' : ∃ t ∈ ts, t.kind = .endOfInput := by
      obtain ⟨t, ht, hend⟩ := he
      rcases List.mem_cons.mp ht with rfl | ht
      · rw [Token.cut_kind] at hend
        rw [hend] at hk
        cases hk
      · exact ⟨t, ht, hend⟩
    have hsize := c.utf8Size_pos
    rcases split_append hword with ⟨front, rfl, hrest⟩ | ⟨tail, rfl, _⟩
    · -- the character stands behind the word
      have hnot : ¬Token.Holds (.cut kind (before ++ gap) word) (byteLength (before ++ (gap ++ (word ++ front)))) c := by
        simp only [Token.Holds, Token.cut, byteLength_append]
        omega
      have hone := ih he' hrest
      rw [List.append_assoc _ word, List.append_assoc before] at hone
      rw [List.countP_cons_of_neg (by simpa using hnot)]
      exact hone
    · -- the character stands in the word, and the tokens behind start behind the word
      have hholds : Token.Holds (.cut kind (before ++ gap) (front ++ c :: tail)) (byteLength (before ++ (gap ++ front))) c := by
        simp only [Token.Holds, Token.cut, byteLength_append, byteLength_cons]
        omega
      have hnone : ts.countP (·.Holds (byteLength (before ++ (gap ++ front))) c) = 0 := by
        refine List.countP_eq_zero.mpr fun t ht => ?_
        have hle := h.byteLength_le_start t ht
        simp only [Token.Holds, byteLength_append, byteLength_cons, decide_eq_true_eq] at hle ⊢
        omega
      rw [List.countP_cons_of_pos (by simpa using hholds), hnone]
  | @ending before gap rest hg =>
    obtain ⟨front, rfl, rfl⟩ := hg.split_append hc ha
    have hholds :
        Token.Holds (.cut .endOfInput (before ++ gap) (front ++ c :: back)) (byteLength (before ++ (gap ++ front))) c := by
      simp only [Token.Holds, Token.cut, byteLength_append, byteLength_cons]
      omega
    rw [List.countP_cons_of_pos (by simpa using hholds), List.countP_nil]
  | fault =>
    obtain ⟨t, ht, hend⟩ := he
    rw [List.mem_singleton.mp ht] at hend
    cases hend

end Covers

/-- The first token of a query starts where the query does. -/
theorem Cursor.exists_first_token (query : List Char) : ∃ t ts, (ofChars query).tokens = t :: ts ∧ t.start = 0 := by
  rcases move_or_stop (placed_ofChars query) with ⟨o, c', hm⟩ | ⟨t, hs⟩
  · have htokens := tokens_of_move hm
    cases hm with
    | @objectName inFields before name rest c hn hc =>
      by_cases hne : name = []
      · subst hne
        rw [Token.verbatim?, if_pos rfl] at htokens
        rcases List.mem_pair.mp hc with rfl | rfl
        · exact ⟨_, _, htokens.trans (tokens_of_move .leftParen), rfl⟩
        · exact ⟨_, _, htokens.trans (tokens_of_move .dot), rfl⟩
      · rw [Token.verbatim?_of_ne_nil _ _ hne] at htokens
        exact ⟨_, _, htokens, rfl⟩
  · have htokens := tokens_of_stop hs
    cases hs with
    | objectName ht => exact ⟨_, _, htokens, rfl⟩

/-- Tokens that are all there is to a query. -/
structure Lossless (query : String) (ts : List Token) : Prop where
  /-- Each token covers its part of the query. -/
  covers : ∀ t ∈ ts, StandsAt query t.covered t.start t.stop
  /-- A token that others can follow covers something. -/
  nonempty : ∀ t ∈ ts, t.kind.isTerminal = false → t.start < t.stop
  /-- The first token starts where the query does. -/
  first : ∃ t, ts.head? = some t ∧ t.start = 0
  /-- Each token follows the one before it, with nothing but blanks in between. -/
  chain : ts.IsChain fun t u => u.Follows query t.stop
  /-- The end of the input is where the query ends. -/
  ending : ∀ t ∈ ts, t.kind = .endOfInput → t.stop = query.utf8ByteSize
  /-- Where the end of the input is reached, each character that is no blank is part of exactly one token. -/
  once : (∃ t ∈ ts, t.kind = .endOfInput) → ∀ (front back : String) (c : Char),
    query = front ++ String.singleton c ++ back → isBlank c = false → ts.countP (·.Holds front.utf8ByteSize c) = 1

/-- The tokens of a query are all there is to it. -/
theorem Scanner.tokens_lossless (query : String) : Lossless query (Scanner.ofString query).tokens := by
  have hcovers : Covers [] query.toList (Scanner.ofString query).tokens :=
    Cursor.covers_tokens (Cursor.placed_ofChars query.toList)
  have hquery : String.ofList ([] ++ query.toList) = query := by
    rw [List.nil_append, String.ofList_toList]
  obtain ⟨t, ts, htokens, hstart⟩ : ∃ t ts, (Scanner.ofString query).tokens = t :: ts ∧ t.start = 0 :=
    Cursor.exists_first_token query.toList
  refine ⟨?covers, hcovers.start_lt_stop, ⟨t, by rw [htokens, List.head?_cons], hstart⟩, ?chain, ?ending, ?once⟩
  case covers =>
    have hstands := hcovers.standsAt
    rwa [hquery] at hstands
  case chain =>
    have hchain := hcovers.isChain
    rwa [hquery] at hchain
  case ending =>
    have hend := hcovers.stop_of_endOfInput
    rwa [List.nil_append, byteLength_toList] at hend
  case once =>
    intro he front back c hsplit hc
    have hahead : query.toList = front.toList ++ c :: back.toList := by
      rw [hsplit, String.toList_append, String.toList_append, String.toList_singleton, List.append_assoc]
      rfl
    have hone := hcovers.countP_holds he hc hahead
    rwa [List.nil_append, byteLength_toList] at hone

end RecordQuery
