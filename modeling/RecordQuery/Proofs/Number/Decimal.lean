import RecordQuery.Number.Signed
import RecordQuery.Proofs.Text.Trim

/-!
# Decimals

The digits of a number are written from those of its tenth, so what goes through them is proved along `decimal_induction`.
-/

namespace RecordQuery.Number

/-- A number is a digit, or a smaller one with a digit behind it. -/
@[elab_as_elim]
theorem decimal_induction {P : Nat → Prop} (digit : ∀ d, d < 10 → P d)
    (push : ∀ n d, 0 < n → d < 10 → P n → P (10 * n + d)) (n : Nat) : P n := by
  induction n using Nat.strong_induction_on with
  | _ n ih =>
    by_cases h : n < 10
    · exact digit n h
    · have hpush := push (n / 10) (n % 10) (by omega) (by omega) (ih (n / 10) (by omega))
      rwa [Nat.div_add_mod] at hpush

/-- A digit behind a number that is not zero is a digit behind its digits. -/
theorem toDigits_push {n d : Nat} (hn : 0 < n) (hd : d < 10) :
    Nat.toDigits 10 (10 * n + d) = Nat.toDigits 10 n ++ [Nat.digitChar d] := by
  rw [← Nat.toDigits_append_toDigits (by decide) hn hd, Nat.toDigits_of_lt_base hd]

/-! ## Digits -/

/-- A digit is read from its character. -/
theorem digit?_digitChar {d : Nat} (h : d < 10) : digit? (Nat.digitChar d) = some d := by
  revert d
  decide

/-- Only digits are written for a number. -/
theorem isSome_digit?_of_mem {c : Char} {n : Nat} (h : c ∈ Nat.toDigits 10 n) : (digit? c).isSome = true := by
  induction n using decimal_induction with
  | digit d hd =>
    rw [Nat.toDigits_of_lt_base hd, List.mem_singleton] at h
    rw [h, digit?_digitChar hd]
    rfl
  | push n d hn hd ih =>
    rw [toDigits_push hn hd, List.mem_append, List.mem_singleton] at h
    rcases h with h | rfl
    · exact ih h
    · rw [digit?_digitChar hd]
      rfl

/-- The digits of a number as numbers. -/
def digits (n : Nat) : List Nat := (Nat.toDigits 10 n).filterMap digit?

theorem digits_of_lt {d : Nat} (h : d < 10) : digits d = [d] := by
  rw [digits, Nat.toDigits_of_lt_base h, List.filterMap_cons_some (digit?_digitChar h), List.filterMap_nil]

/-- The digits of a number end with its last digit, behind those of its tenth. -/
theorem digits_push {n d : Nat} (hn : 0 < n) (hd : d < 10) : digits (10 * n + d) = digits n ++ [d] := by
  rw [digits, toDigits_push hn hd, List.filterMap_append, ← digits_of_lt hd, digits, digits, Nat.toDigits_of_lt_base hd]

/-- Zero is the only number with a zero in front. -/
theorem exists_digits_eq_cons (n : Nat) : ∃ d ds, digits n = d :: ds ∧ (n = 0 ∧ ds = [] ∨ 0 < d) := by
  induction n using decimal_induction with
  | digit d hd =>
    refine ⟨d, [], digits_of_lt hd, ?_⟩
    rcases Nat.eq_zero_or_pos d with rfl | hpos
    · exact .inl ⟨rfl, rfl⟩
    · exact .inr hpos
  | push n d hn hd ih =>
    obtain ⟨e, es, he, hfirst⟩ := ih
    have hpos : 0 < e := hfirst.resolve_left fun hzero => absurd hzero.1 (by omega)
    refine ⟨e, es ++ [d], ?_, .inr hpos⟩
    rw [digits_push hn hd, he, List.cons_append]

/-- A number is written with at least one digit. -/
theorem exists_toDigits_eq_cons (n : Nat) : ∃ d cs, d < 10 ∧ Nat.toDigits 10 n = Nat.digitChar d :: cs := by
  induction n using decimal_induction with
  | digit d hd => exact ⟨d, [], hd, Nat.toDigits_of_lt_base hd⟩
  | push n d hn hd ih =>
    obtain ⟨e, cs, he, hcs⟩ := ih
    exact ⟨e, cs ++ [Nat.digitChar d], he, by rw [toDigits_push hn hd, hcs, List.cons_append]⟩

/-! ## The characters of a number -/

/-- The digits stand next to each other in the order of code points. -/
theorem isSome_digit?_iff {c : Char} : (digit? c).isSome = true ↔ 48 ≤ c.toNat ∧ c.toNat ≤ 57 := by
  unfold digit?
  split
  next h => exact ⟨fun _ => h, fun _ => rfl⟩
  next h => exact ⟨nofun, fun hc => absurd hc h⟩

/-- An integer is written with a sign and digits only. -/
theorem mem_writeInt {c : Char} {n : Int} (h : c ∈ writeInt n) : c = '-' ∨ (digit? c).isSome = true := by
  unfold writeInt at h
  split at h
  · rcases List.mem_cons.mp h with rfl | h
    · exact .inl rfl
    · exact .inr (isSome_digit?_of_mem h)
  · exact .inr (isSome_digit?_of_mem h)

/-- No blank is written for an integer. -/
theorem isBlank_of_mem_writeInt {c : Char} {n : Int} (h : c ∈ writeInt n) : Text.isBlank c = false := by
  rcases mem_writeInt h with rfl | h
  · rfl
  · have hrange := isSome_digit?_iff.mp h
    simp only [Text.isBlank, Bool.or_eq_false_iff, Bool.and_eq_false_iff, decide_eq_false_iff_not, beq_eq_false_iff_ne]
    omega

/-- Trimming leaves a written integer as it is. -/
theorem trim_writeInt (n : Int) : Text.trim (writeInt n) = writeInt n :=
  Text.trim_eq_self_iff.mpr ⟨fun _ hc => isBlank_of_mem_writeInt (List.mem_of_head? hc),
    fun _ hc => isBlank_of_mem_writeInt (List.mem_of_getLast? hc)⟩

end RecordQuery.Number
