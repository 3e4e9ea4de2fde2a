import RecordQuery.Proofs.Token.Layout

/-!
# Blanks between the words of a query

What is read of a query depends on what its tokens say and not on where they stand, except for the offsets in errors. So a query
that spells the same lexemes with other blanks between them asks for the same.
-/

namespace RecordQuery

open Text

/-- What a token leads to, without the reason if it is an error. -/
def Progress.result : Progress → Option (Stage ⊕ Selection)
  | .more stage => some (.inl stage)
  | .done selection => some (.inr selection)
  | .failed _ => none

namespace Stage

variable {limit : Nat} {stage : Stage}

/-- Tokens that say the same lead to the same, whatever is left over at the end of the input. -/
theorem result_read_congr {t t' : Token} (hk : t.kind = t'.kind) (ht : t.kind = .endOfInput ∨ t.text = t'.text) :
    (stage.read limit t).result = (stage.read limit t').result := by
  obtain ⟨kind, text, start, stop⟩ := t
  obtain ⟨kind', text', start', stop'⟩ := t'
  cases hk
  rcases ht with h | h
  · cases h
    cases stage <;> rfl
  · cases h
    cases stage with
    | fields group outer =>
      -- with or without a field that a mark may belong to
      obtain ⟨owner, fields, current⟩ := group
      cases current <;> cases kind <;> rfl
    | _ => cases kind <;> rfl

/-- Where two tokens lead to the same and what follows gives the same selections, so does the whole reading. -/
theorem readAll_cons_of_result_eq {t t' : Token} {ts ts' : List Token}
    (h : (stage.read limit t).result = (stage.read limit t').result)
    (hrest : ∀ next : Stage, (next.readAll limit ts).1.toOption = (next.readAll limit ts').1.toOption) :
    (stage.readAll limit (t :: ts)).1.toOption = (stage.readAll limit (t' :: ts')).1.toOption := by
  rw [readAll_cons, readAll_cons]
  cases ht : stage.read limit t <;> cases ht' : stage.read limit t' <;> rw [ht, ht'] at h <;> cases h
  · exact hrest _
  · rfl
  · rfl

/-- Tokens that say the same in front of the end of the input give the same selection, or none. -/
theorem toOption_readAll_congr {ts ts' : List Token} {e e' : Token} (h : ts.map Token.lexeme = ts'.map Token.lexeme)
    (he : e.kind = .endOfInput) (he' : e'.kind = .endOfInput) :
    (stage.readAll limit (ts ++ [e])).1.toOption = (stage.readAll limit (ts' ++ [e'])).1.toOption := by
  induction ts generalizing ts' stage with
  | nil =>
    cases List.map_eq_nil_iff.mp h.symm
    exact readAll_cons_of_result_eq (result_read_congr (he.trans he'.symm) (.inl he)) fun _ => rfl
  | cons t ts ih =>
    obtain ⟨t', ts', rfl, ht, hts⟩ := List.map_eq_cons_iff.mp h.symm
    obtain ⟨hk, htext⟩ := Prod.mk.inj ht
    exact readAll_cons_of_result_eq (result_read_congr hk.symm (.inr htext.symm)) fun _ => ih hts.symm

end Stage

/-- Two outcomes that give the same selection, or none, are the same as far as they end well. -/
theorem eq_ok_iff_of_toOption_eq {a b : Except ParseError Selection} (h : a.toOption = b.toOption) (t : Selection) :
    a = .ok t ↔ b = .ok t := by
  cases a <;> cases b <;> simp_all [Except.toOption]

/-- A query that is scanned to its end may be spelled with other blanks between its tokens: the scan of it gives the same
lexemes and comes to the end as well, and the same is read of it. -/
theorem Scanner.tokens_spelled {query query' : String} {ts : List Token} {e : Token}
    (h : (Scanner.ofString query).tokens = ts ++ [e]) (he : e.kind = .endOfInput)
    (hs : Spells (ts.map Token.lexeme) query'.toList) :
    (∃ ts' e', (Scanner.ofString query').tokens = ts' ++ [e'] ∧ e'.kind = .endOfInput ∧
        ts'.map Token.lexeme = ts.map Token.lexeme) ∧
      ∀ limit t, Selection.parse query' limit = .ok t ↔ Selection.parse query limit = .ok t := by
  have hstable := Cursor.stable (.ofChars query.toList) (Cursor.placed_ofChars _)
  obtain ⟨ts', e', h', he', hsame⟩ : Cursor.Yields (.ofChars query'.toList) (ts.map Token.lexeme) :=
    hstable.yields ⟨ts, e, h, he, rfl⟩ hs []
  refine ⟨⟨ts', e', h', he', hsame⟩, fun limit t => ?_⟩
  have htokens : (Scanner.ofString query').tokens = ts' ++ [e'] := h'
  rw [Selection.parse, Selection.parse, h, htokens]
  exact eq_ok_iff_of_toOption_eq (Stage.toOption_readAll_congr hsame he' he) t

/-- A query with other blanks behind a parenthesis, within the braces and at the end. -/
theorem Scanner.tokens_spelled_respaced :
    Spells [(.objectName, "a"), (.leftParen, "("), (.rightParen, ")"), (.leftBrace, "\x7b"), (.fieldName, "b"),
        (.rightBrace, "\x7d")] "a()\n\x7b\u00a0b\t\x7d\u2003".toList ∧
      (∃ ts e, (Scanner.ofString "a()\n\x7b\u00a0b\t\x7d\u2003").tokens = ts ++ [e] ∧ e.kind = .endOfInput ∧
        ts.map Token.lexeme = [(.objectName, "a"), (.leftParen, "("), (.rightParen, ")"), (.leftBrace, "\x7b"),
          (.fieldName, "b"), (.rightBrace, "\x7d")]) ∧
      ∀ limit t, Selection.parse "a()\n\x7b\u00a0b\t\x7d\u2003" limit = .ok t ↔
        Selection.parse "a() \x7bb \x7d" limit = .ok t := by
  have hlayout : Layout ['\n'] := by simp [Layout, isLayout]
  have hblank (c : Char) (h : isBlank c = true) : Blank [c] := List.forall_mem_singleton.mpr h
  have hspells : Spells [(.objectName, "a"), (.leftParen, "("), (.rightParen, ")"), (.leftBrace, "\x7b"), (.fieldName, "b"),
      (.rightBrace, "\x7d")] ("a".toList ++ ([] ++ ("(".toList ++ ([] ++ (")".toList ++ (['\n'] ++
        ("\x7b".toList ++ (['\u00a0'] ++ ("b".toList ++ (['\t'] ++ ("\x7d".toList ++ (['\u2003'] ++ [])))))))))))) :=
    .cons rfl (.cons rfl (.cons hlayout (.cons (hblank _ rfl) (.cons (hblank _ rfl) (.cons (hblank _ rfl) .nil)))))
  have htokens : (Scanner.ofString "a() \x7bb \x7d").tokens = [⟨.objectName, "a", 0, 1⟩, ⟨.leftParen, "(", 1, 2⟩,
      ⟨.rightParen, ")", 2, 3⟩, ⟨.leftBrace, "\x7b", 4, 5⟩, ⟨.fieldName, "b", 5, 6⟩, ⟨.rightBrace, "\x7d", 7, 8⟩] ++
        [⟨.endOfInput, "", 8, 8⟩] := by decide +kernel
  exact ⟨hspells, tokens_spelled htokens rfl hspells⟩

end RecordQuery
