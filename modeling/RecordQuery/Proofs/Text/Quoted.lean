import RecordQuery.Proofs.Text.Split
import RecordQuery.Text.Quoted

/-!
# What a quoted text tells

A quoted text tells what it quotes (`quotedChars_inj`): what stands for one character between the quotes is never in front of what
stands for another (`quotedChar_append_inj`), so the characters can be taken off one by one. All that is between the quotes has a
shape of its own, and nothing that breaks a line has one, so a quoted text stays on one line whatever it quotes.
-/

namespace RecordQuery.Text

/-! ## Hexadecimal digits -/

/-- Two hexadecimal digits with one character are the same digit. -/
theorem digitChar_inj {d e : Nat} (hd : d < 16) (he : e < 16) (h : Nat.digitChar d = Nat.digitChar e) : d = e := by
  have hall : ∀ d < 16, ∀ e < 16, Nat.digitChar d = Nat.digitChar e → d = e := by decide
  exact hall d hd e he h

/-- Only hexadecimal digits are written for a number. -/
theorem exists_digitChar_of_mem {c : Char} {n : Nat} (h : c ∈ Nat.toDigits 16 n) : ∃ d < 16, c = Nat.digitChar d := by
  induction n using Nat.strong_induction_on with
  | _ n ih =>
    rw [Nat.toDigits_eq_if (by decide)] at h
    split at h
    next hn => exact ⟨n, hn, List.mem_singleton.mp h⟩
    next hn =>
      rcases List.mem_append.mp h with h | h
      · exact ih (n / 16) (by omega) h
      · exact ⟨n % 16, by omega, List.mem_singleton.mp h⟩

/-- A number written with one hexadecimal digit is below sixteen. -/
theorem lt_of_toDigits_eq_singleton {c : Char} {n : Nat} (h : Nat.toDigits 16 n = [c]) : n < 16 := by
  by_contra hn
  rw [Nat.toDigits_of_base_le (by decide) (Nat.le_of_not_lt hn)] at h
  rcases List.append_eq_singleton_iff.mp h with ⟨hnil, _⟩ | ⟨_, hnil⟩
  · exact Nat.toDigits_ne_nil hnil
  · cases hnil

/-- The digits of a number tell it. -/
theorem toDigits_inj {m n : Nat} (h : Nat.toDigits 16 m = Nat.toDigits 16 n) : m = n := by
  induction m using Nat.strong_induction_on generalizing n with
  | _ m ih =>
    by_cases hm : m < 16
    · have hn : n < 16 := lt_of_toDigits_eq_singleton (h.symm.trans (Nat.toDigits_of_lt_base hm))
      rw [Nat.toDigits_of_lt_base hm, Nat.toDigits_of_lt_base hn] at h
      exact digitChar_inj hm hn (List.singleton_inj.mp h)
    · have hn : ¬n < 16 := fun hn => hm (lt_of_toDigits_eq_singleton (h.trans (Nat.toDigits_of_lt_base hn)))
      rw [Nat.toDigits_of_base_le (by decide) (Nat.le_of_not_lt hm),
        Nat.toDigits_of_base_le (by decide) (Nat.le_of_not_lt hn)] at h
      obtain ⟨hfront, hlast⟩ := List.append_inj' h rfl
      have hdiv : m / 16 = n / 16 := ih (m / 16) (by omega) hfront
      have hmod : m % 16 = n % 16 := digitChar_inj (by omega) (by omega) (List.singleton_inj.mp hlast)
      omega

/-! ## What stands for a character -/

/-- What stands for a character: a backslash and a letter, its code point, or itself. -/
inductive Stands : Char → List Char → Prop where
  | letter {c e : Char} (h : shortEscape? c = some e) : Stands c ['\\', e]
  | codePoint {c : Char} : Stands c ('\\' :: 'u' :: '{' :: (Nat.toDigits 16 c.toNat ++ ['}']))
  | itself {c : Char} (hc : c ≠ '\\') (hs : isShapeless c = false) : Stands c [c]

/-- What is written between quotes for a character stands for it. -/
theorem stands_quotedChar (c : Char) : Stands c (quotedChar c) := by
  unfold quotedChar
  split
  next e he => exact .letter he
  next hnone =>
    split
    next => exact .codePoint
    next hs =>
      refine .itself ?_ (Bool.eq_false_iff.mpr hs)
      rintro rfl
      cases hnone

/-- The letters behind a backslash, each with the character that it stands for. -/
def letters : List (Char × Char) := [('0', '\x00'), ('t', '\t'), ('r', '\r'), ('n', '\n'), ('"', '"'), ('\\', '\\')]

/-- A letter behind a backslash is one of the six. -/
theorem mem_letters_of_shortEscape? {c e : Char} (h : shortEscape? c = some e) : (e, c) ∈ letters := by
  unfold shortEscape? at h
  split_ifs at h with h₀ h₁ h₂ h₃ h₄ h₅
  all_goals
    cases h
    subst c
    decide

/-- No letter stands for two characters. -/
theorem shortEscape?_inj {c d e : Char} (hc : shortEscape? c = some e) (hd : shortEscape? d = some e) : c = d := by
  have hall : ∀ p ∈ letters, ∀ q ∈ letters, p.1 = q.1 → p.2 = q.2 := by decide
  exact hall _ (mem_letters_of_shortEscape? hc) _ (mem_letters_of_shortEscape? hd) rfl

/-- The mark of a code point is no letter behind a backslash. -/
theorem shortEscape?_ne_u (c : Char) : shortEscape? c ≠ some 'u' := by
  intro h
  have hall : ∀ p ∈ letters, p.1 ≠ 'u' := by decide
  exact hall _ (mem_letters_of_shortEscape? h) rfl

variable {c d : Char} {as bs rest rest' : List Char}

/-- What stands for a character is not in front of what stands for another. -/
theorem Stands.append_inj (hc : Stands c as) (hd : Stands d bs) (h : as ++ rest = bs ++ rest') : c = d ∧ rest = rest' := by
  cases hc with
  | letter he =>
    cases hd with
    | letter he' =>
      simp only [List.cons_append, List.nil_append, List.cons.injEq, true_and] at h
      obtain ⟨rfl, hrest⟩ := h
      exact ⟨shortEscape?_inj he he', hrest⟩
    | codePoint =>
      simp only [List.cons_append, List.cons.injEq, true_and] at h
      exact absurd (h.1 ▸ he) (shortEscape?_ne_u c)
    | itself hne => exact absurd (List.cons.inj h).1.symm hne
  | codePoint =>
    cases hd with
    | letter he' =>
      simp only [List.cons_append, List.cons.injEq, true_and] at h
      exact absurd (h.1 ▸ he') (shortEscape?_ne_u d)
    | codePoint =>
      simp only [List.cons_append, List.append_assoc, List.nil_append, List.cons.injEq, true_and] at h
      have havoids (n : Nat) : Avoids ['}'] (Nat.toDigits 16 n) := by
        intro e he hbrace
        obtain ⟨k, _, rfl⟩ := exists_digitChar_of_mem he
        exact Nat.digitChar_ne '}' rfl (List.mem_singleton.mp hbrace)
      obtain ⟨hdigits, _, hrest⟩ := (havoids c.toNat).append_cons_inj (havoids d.toNat) (List.mem_singleton_self '}')
        (List.mem_singleton_self '}') h
      exact ⟨Char.toNat_inj.mp (toDigits_inj hdigits), hrest⟩
    | itself hne => exact absurd (List.cons.inj h).1.symm hne
  | itself hne =>
    cases hd with
    | letter => exact absurd (List.cons.inj h).1 hne
    | codePoint => exact absurd (List.cons.inj h).1 hne
    | itself => exact List.cons.inj h

theorem Stands.ne_nil (h : Stands c as) : as ≠ [] := by
  cases h <;> exact List.cons_ne_nil _ _

/-- The text between the quotes tells what is quoted: by induction on both, one character taken off each. -/
theorem flatMap_quotedChar_inj {cs ds : List Char} (h : cs.flatMap quotedChar = ds.flatMap quotedChar) : cs = ds := by
  induction cs generalizing ds with
  | nil =>
    cases ds with
    | nil => rfl
    | cons d ds => exact absurd (List.append_eq_nil_iff.mp h.symm).1 (stands_quotedChar d).ne_nil
  | cons c cs ih =>
    cases ds with
    | nil => exact absurd (List.append_eq_nil_iff.mp h).1 (stands_quotedChar c).ne_nil
    | cons d ds =>
      rw [List.flatMap_cons, List.flatMap_cons] at h
      obtain ⟨rfl, hrest⟩ := (stands_quotedChar c).append_inj (stands_quotedChar d) h
      rw [ih hrest]

/-- A quoted text tells what it quotes. -/
theorem quotedChars_inj {cs ds : List Char} (h : quotedChars cs = quotedChars ds) : cs = ds :=
  flatMap_quotedChar_inj (List.append_cancel_right (List.cons.inj h).2)

/-! ## On one line -/

/-- A character that breaks a line: line feed, vertical tab, form feed, carriage return, next line, line separator, paragraph
separator. -/
def IsLineBreak (c : Char) : Prop := c ∈ ['\n', '\x0b', '\x0c', '\r', '\u0085', '\u2028', '\u2029']

/-- Nothing breaks the line. -/
def Unbroken (text : List Char) : Prop := ∀ c ∈ text, ¬IsLineBreak c

instance : DecidablePred IsLineBreak := fun c => inferInstanceAs (Decidable (c ∈ _))

instance (text : List Char) : Decidable (Unbroken text) := List.decidableBAll _ text

theorem unbroken_append : Unbroken (as ++ bs) ↔ Unbroken as ∧ Unbroken bs := List.forall_mem_append

theorem unbroken_cons : Unbroken (c :: as) ↔ ¬IsLineBreak c ∧ Unbroken as := List.forall_mem_cons

/-- Nothing that has a shape of its own breaks a line. -/
theorem not_isLineBreak_of_shape (h : isShapeless c = false) : ¬IsLineBreak c := by
  intro hbreak
  have hall : ['\n', '\x0b', '\x0c', '\r', '\u0085', '\u2028', '\u2029'].all isShapeless = true := by decide +kernel
  rw [List.all_eq_true.mp hall c hbreak] at h
  cases h

/-- The digits of a code point do not break a line. -/
theorem unbroken_toDigits (n : Nat) : Unbroken (Nat.toDigits 16 n) := by
  intro c hc
  have hall : ∀ d < 16, isShapeless (Nat.digitChar d) = false := by decide
  obtain ⟨d, hd, rfl⟩ := exists_digitChar_of_mem hc
  exact not_isLineBreak_of_shape (hall d hd)

/-- Nothing that stands for a character breaks a line, not even where the character itself would. -/
theorem Stands.unbroken (h : Stands c as) : Unbroken as := by
  cases h with
  | letter he =>
    have hall : ∀ p ∈ letters, Unbroken ['\\', p.1] := by decide
    exact hall _ (mem_letters_of_shortEscape? he)
  | codePoint =>
    have hfront : Unbroken ['\\', 'u', '{'] := by decide
    have hback : Unbroken ['}'] := by decide
    exact unbroken_append.mpr ⟨hfront, unbroken_append.mpr ⟨unbroken_toDigits c.toNat, hback⟩⟩
  | itself _ hs => exact List.forall_mem_singleton.mpr (not_isLineBreak_of_shape hs)

/-- A quoted text is on one line. -/
theorem unbroken_quotedChars (cs : List Char) : Unbroken (quotedChars cs) := by
  have hquote : ¬IsLineBreak '"' := by decide
  refine unbroken_cons.mpr ⟨hquote, unbroken_append.mpr ⟨fun c hc => ?_, List.forall_mem_singleton.mpr hquote⟩⟩
  obtain ⟨d, _, hd⟩ := List.mem_flatMap.mp hc
  exact (stands_quotedChar d).unbroken c hd

end RecordQuery.Text
