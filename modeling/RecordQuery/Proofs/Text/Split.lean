import RecordQuery.Proofs.Text.Trim

/-!
# Runs of text

A scanner runs over text up to a character at which it stops. `Avoids stops cs` says that none of the stops occurs in a text, and
`avoids_or_split` finds the first one there is.
-/

namespace RecordQuery.Text

/-- None of these characters occurs in a text. -/
def Avoids (stops cs : List Char) : Prop := ∀ c ∈ cs, c ∉ stops

theorem avoids_nil (stops : List Char) : Avoids stops [] := fun _ h => absurd h List.not_mem_nil

/-- A text is free of the stops exactly if its first character is none of them and the rest is free of them. -/
theorem avoids_cons {stops cs : List Char} {c : Char} : Avoids stops (c :: cs) ↔ c ∉ stops ∧ Avoids stops cs :=
  List.forall_mem_cons

theorem avoids_append {stops as bs : List Char} : Avoids stops (as ++ bs) ↔ Avoids stops as ∧ Avoids stops bs :=
  List.forall_mem_append

/-- A text is free of the characters, or it splits before the first of them. -/
theorem avoids_or_split (stops cs : List Char) :
    Avoids stops cs ∨ ∃ a c rest, cs = a ++ c :: rest ∧ Avoids stops a ∧ c ∈ stops := by
  induction cs with
  | nil => exact .inl (avoids_nil stops)
  | cons c cs ih =>
    by_cases hc : c ∈ stops
    · exact .inr ⟨[], c, cs, rfl, avoids_nil stops, hc⟩
    · rcases ih with h | ⟨a, d, rest, rfl, ha, hd⟩
      · exact .inl (avoids_cons.mpr ⟨hc, h⟩)
      · exact .inr ⟨c :: a, d, rest, rfl, avoids_cons.mpr ⟨hc, ha⟩, hd⟩

/-- A text splits in one way before the first of the characters. -/
theorem Avoids.append_cons_inj {stops as bs rest rest' : List Char} {c d : Char} (ha : Avoids stops as)
    (hb : Avoids stops bs) (hc : c ∈ stops) (hd : d ∈ stops) (h : as ++ c :: rest = bs ++ d :: rest') :
    as = bs ∧ c = d ∧ rest = rest' := by
  induction as generalizing bs with
  | nil =>
    cases bs with
    | nil => exact ⟨rfl, List.cons.inj h⟩
    | cons b bs =>
      obtain ⟨rfl, -⟩ := List.cons.inj h
      exact absurd hc (avoids_cons.mp hb).1
  | cons a as ih =>
    cases bs with
    | nil =>
      obtain ⟨rfl, -⟩ := List.cons.inj h
      exact absurd hd (avoids_cons.mp ha).1
    | cons b bs =>
      obtain ⟨rfl, htail⟩ := List.cons.inj h
      obtain ⟨rfl, hrest⟩ := ih (avoids_cons.mp ha).2 (avoids_cons.mp hb).2 htail
      exact ⟨rfl, hrest⟩

/-- A character of two texts put together stands in the second one or in the first. -/
theorem split_append {as bs front back : List Char} {c : Char} (h : as ++ bs = front ++ c :: back) :
    (∃ front', front = as ++ front' ∧ bs = front' ++ c :: back) ∨ ∃ tail, as = front ++ c :: tail ∧ back = tail ++ bs := by
  rcases List.append_eq_append_iff.mp h with ⟨front', hf, hb⟩ | ⟨tail, ha, hb⟩
  · exact .inl ⟨front', hf, hb⟩
  · cases tail with
    | nil => exact .inl ⟨[], by rw [ha, List.append_nil, List.append_nil], hb.symm⟩
    | cons d tail =>
      cases hb
      exact .inr ⟨tail, ha, rfl⟩

/-- A character that is no blank stands behind the blanks in front of a text. -/
theorem Blank.split_append {gap text front back : List Char} {c : Char} (hg : Blank gap) (hc : isBlank c = false)
    (h : gap ++ text = front ++ c :: back) : ∃ front', front = gap ++ front' ∧ text = front' ++ c :: back := by
  rcases Text.split_append h with hsplit | ⟨tail, rfl, _⟩
  · exact hsplit
  · have hb := hg c (List.mem_append_right front List.mem_cons_self)
    rw [hc] at hb
    cases hb

/-- What ends the name of the requested record. -/
def nameStops : List Char := ['(', '.']

/-- What ends the name of a call. -/
def callStops : List Char := ['(']

/-- What ends an argument, or breaks it off. -/
def argumentStops : List Char := [')', '\n']

/-- What ends a name in a field group. -/
def fieldStops : List Char := ['{', '}', ',', '.', '(']

/-- No blank ends a name in a field group. -/
theorem Blank.avoids_fieldStops {cs : List Char} (h : Blank cs) : Avoids fieldStops cs := by
  intro c hc hs
  have hb : fieldStops.all (fun d => !isBlank d) = true := by decide
  have hn := List.all_eq_true.mp hb c hs
  rw [h c hc] at hn
  exact Bool.false_ne_true hn

/-- No blank ends the name of a call. -/
theorem Blank.avoids_callStops {cs : List Char} (h : Blank cs) : Avoids callStops cs := by
  intro c hc hs
  refine h.avoids_fieldStops c hc ?_
  rw [List.mem_singleton.mp hs]
  decide

/-- No blank ends the name of the requested record. -/
theorem Blank.avoids_nameStops {cs : List Char} (h : Blank cs) : Avoids nameStops cs := by
  intro c hc hn
  have hstop : c ∈ fieldStops := by
    rcases List.mem_pair.mp hn with rfl | rfl <;> decide
  exact h.avoids_fieldStops c hc hstop

/-- A text whose first character, if there is one, is no layout character. -/
def StartsSolid (cs : List Char) : Prop := ∀ c, cs.head? = some c → isLayout c = false

/-- Whether a text starts with layout is told by its first character. -/
theorem startsSolid_cons {c : Char} {cs : List Char} : StartsSolid (c :: cs) ↔ isLayout c = false := by
  simp [StartsSolid]

/-- A text that is there and starts with no layout keeps its start with more behind it. -/
theorem StartsSolid.append {cs : List Char} (h : StartsSolid cs) (hne : cs ≠ []) (r : List Char) : StartsSolid (cs ++ r) := by
  intro c hc
  rw [List.head?_append_of_ne_nil cs hne] at hc
  exact h c hc

/-- The layout in front of a text can be split off. -/
theorem exists_layout_split (cs : List Char) : ∃ w rest, cs = w ++ rest ∧ Layout w ∧ StartsSolid rest := by
  refine ⟨cs.takeWhile isLayout, cs.dropWhile isLayout, List.takeWhile_append_dropWhile.symm,
    fun c hc => List.mem_takeWhile_imp hc, fun c hc => ?_⟩
  have h := List.head?_dropWhile_not isLayout cs
  rw [hc] at h
  simpa using h

section Runs

variable {p : Char → Bool} {a rest : List Char} (ha : ∀ c ∈ a, p c = true) (hr : ∀ c, rest.head? = some c → p c = false)

include ha hr

/-- A run ends where the test fails first. -/
theorem takeWhile_run : (a ++ rest).takeWhile p = a := by
  rw [List.takeWhile_append_of_pos ha]
  cases rest with
  | nil => rw [List.takeWhile_nil, List.append_nil]
  | cons c rest => rw [List.takeWhile_cons_of_neg (by simp [hr c rfl]), List.append_nil]

theorem dropWhile_run : (a ++ rest).dropWhile p = rest := by
  rw [List.dropWhile_append_of_pos ha]
  cases rest with
  | nil => rfl
  | cons c rest => rw [List.dropWhile_cons_of_neg (by simp [hr c rfl])]

end Runs

end RecordQuery.Text
