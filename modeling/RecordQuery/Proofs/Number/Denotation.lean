import Mathlib.Data.Nat.Digits.Defs
import RecordQuery.Proofs.Number.Decimal

/-!
# What a signed decimal denotes

The number that an optional sign and digits denote (`Denotes`), told without a reader. A text is read as the number of 64 bits that
it denotes, and if there is none the fault tells why (`IsFault`): more digits never bring a number back into the range, so the
first digits that leave it decide, and what stands behind them is not looked at. What is written for a number denotes it, and so
it is read back.
-/

namespace RecordQuery.Number

/-- Decimal digits only. -/
def AllDigits (cs : List Char) : Prop := ∀ c ∈ cs, c.isDigit = true

/-- What a digit counts by itself. -/
def worth (c : Char) : Nat := c.toNat - '0'.toNat

/-- A number with a minus sign or without. -/
def signed (negative : Bool) (n : Nat) : Int := if negative then -n else n

/-- The number that decimal digits denote. -/
def magnitude (ds : List Char) : Nat := Nat.ofDigits 10 (ds.reverse.map worth)

/-- What may stand in front of digits, and whether it is a minus sign. -/
inductive Sign : List Char → Bool → Prop where
  | none : Sign [] false
  | plus : Sign ['+'] false
  | minus : Sign ['-'] true

/-- A text denotes a number: an optional sign, and one or more digits. -/
inductive Denotes : List Char → Int → Prop where
  | intro {sign ds : List Char} {negative : Bool} (hs : Sign sign negative) (hd : AllDigits ds) (hne : ds ≠ []) :
    Denotes (sign ++ ds) (signed negative (magnitude ds))

/-- The text starts with a number that does not fit 64 bits. -/
def LeavesRange (cs : List Char) : Prop := ∃ front n, front <+: cs ∧ Denotes front n ∧ ¬FitsInt64 n

/-- What is wrong with a text that denotes no number of 64 bits. -/
inductive IsFault (cs : List Char) : IntegerFault → Prop where
  | empty (h : cs = []) : IsFault cs .empty
  | tooLarge (h : LeavesRange cs) (hs : cs.head? ≠ some '-') : IsFault cs .tooLarge
  | tooSmall (h : LeavesRange cs) (hs : cs.head? = some '-') : IsFault cs .tooSmall
  | invalidDigit (hne : cs ≠ []) (hin : ¬LeavesRange cs) (hnone : ∀ n, ¬Denotes cs n) : IsFault cs .invalidDigit

variable {c : Char} {cs ds front rest sign : List Char} {negative : Bool} {n : Int}

/-! ## Digits -/

theorem digit?_of_isDigit (h : c.isDigit = true) : digit? c = some (worth c) := if_pos (Char.isDigit_iff_toNat.mp h)

theorem digit?_of_not_isDigit (h : c.isDigit = false) : digit? c = none := by
  refine if_neg fun hc => ?_
  rw [Char.isDigit_iff_toNat.mpr hc] at h
  cases h

/-- A digit behind others counts once, and each of them ten times as much as before. -/
theorem magnitude_concat (ds : List Char) (c : Char) : magnitude (ds ++ [c]) = 10 * magnitude ds + worth c := by
  rw [magnitude, List.reverse_append, List.reverse_singleton, List.singleton_append, List.map_cons, Nat.ofDigits_cons,
    Nat.add_comm]
  rfl

/-- More digits do not make a smaller number. -/
theorem magnitude_le_append (ds more : List Char) : magnitude ds ≤ magnitude (ds ++ more) := by
  rw [magnitude, magnitude, List.reverse_append, List.map_append, Nat.ofDigits_append]
  have hpow : 0 < 10 ^ (more.reverse.map worth).length := Nat.pow_pos (by decide)
  exact (Nat.le_mul_of_pos_left _ hpow).trans (Nat.le_add_left _ _)

/-- A number that fits 64 bits still fits if it comes closer to zero. -/
theorem fitsInt64_of_le {m k : Nat} (hmk : m ≤ k) (h : FitsInt64 (signed negative k)) : FitsInt64 (signed negative m) := by
  unfold FitsInt64 signed at *
  cases negative
  · simp only [Bool.false_eq_true, if_false] at h ⊢
    omega
  · simp only [if_true] at h ⊢
    omega

theorem fitsInt64_toInt (n : Int64) : FitsInt64 n.toInt := ⟨n.le_toInt, n.toInt_lt⟩

/-- Where no digit is read yet, the number is zero, which fits. -/
theorem fitsInt64_zero (negative : Bool) : FitsInt64 (signed negative (magnitude [])) := by
  cases negative <;> decide

/-! ## Reading digits -/

/-- The fault of digits that leave the range. -/
def outOfRange (negative : Bool) : IntegerFault := if negative then .tooSmall else .tooLarge

/-- One more digit adds to the number of the digits in front of it, unless that leaves the range. -/
theorem readDigits_digit (hc : c.isDigit = true) (front rest : List Char) :
    readDigits negative (signed negative (magnitude front)) (c :: rest) =
      if FitsInt64 (signed negative (magnitude (front ++ [c]))) then
        readDigits negative (signed negative (magnitude (front ++ [c]))) rest
      else .error (outOfRange negative) := by
  have hvalue : (if negative then 10 * signed negative (magnitude front) - (worth c : Int)
      else 10 * signed negative (magnitude front) + worth c) = signed negative (magnitude (front ++ [c])) := by
    rw [magnitude_concat]
    unfold signed
    cases negative
    · simp
    · simp
      omega
  rw [readDigits]
  simp only [digit?_of_isDigit hc, hvalue, outOfRange]

/-- Digits whose number fits are read up to what stands behind them. -/
theorem readDigits_of_fits (hd : AllDigits ds) (h : FitsInt64 (signed negative (magnitude (front ++ ds))))
    (rest : List Char) :
    readDigits negative (signed negative (magnitude front)) (ds ++ rest) =
      readDigits negative (signed negative (magnitude (front ++ ds))) rest := by
  induction ds generalizing front with
  | nil => rw [List.nil_append, List.append_nil]
  | cons d ds ih =>
    obtain ⟨hdigit, hdigits⟩ := List.forall_mem_cons.mp hd
    have hfront : front ++ d :: ds = front ++ [d] ++ ds := List.append_cons front d ds
    rw [hfront] at h ⊢
    rw [List.cons_append, readDigits_digit hdigit, if_pos (fitsInt64_of_le (magnitude_le_append _ _) h)]
    exact ih hdigits h

/-- Digits whose number does not fit are not read, whatever stands behind them. -/
theorem readDigits_of_not_fits (hd : AllDigits ds) (hfront : FitsInt64 (signed negative (magnitude front)))
    (h : ¬FitsInt64 (signed negative (magnitude (front ++ ds)))) (rest : List Char) :
    readDigits negative (signed negative (magnitude front)) (ds ++ rest) = .error (outOfRange negative) := by
  induction ds generalizing front with
  | nil =>
    rw [List.append_nil] at h
    exact absurd hfront h
  | cons d ds ih =>
    obtain ⟨hdigit, hdigits⟩ := List.forall_mem_cons.mp hd
    rw [List.cons_append, readDigits_digit hdigit]
    split
    next hfits =>
      rw [List.append_cons] at h
      exact ih hdigits hfits h
    next => rfl

/-! ## Sign, digits and the rest -/

/-- A text is an optional sign, all digits that follow it, and a rest. -/
structure Splits (cs sign ds rest : List Char) (negative : Bool) : Prop where
  eq : cs = sign ++ (ds ++ rest)
  isSign : Sign sign negative
  allDigits : AllDigits ds
  /-- The rest does not go on with a digit. -/
  stops : ∀ c, rest.head? = some c → c.isDigit = false
  /-- The sign is only left out where there is none. -/
  unsigned : sign = [] → cs.head? ≠ some '+' ∧ cs.head? ≠ some '-'

/-- Each text is split into a sign, digits and a rest. -/
theorem exists_splits (cs : List Char) : ∃ sign ds rest negative, Splits cs sign ds rest negative := by
  have hbody (body : List Char) : ∃ ds rest, body = ds ++ rest ∧ AllDigits ds ∧
      ∀ c, rest.head? = some c → c.isDigit = false := by
    refine ⟨body.takeWhile Char.isDigit, body.dropWhile Char.isDigit, List.takeWhile_append_dropWhile.symm,
      fun c hc => List.mem_takeWhile_imp hc, fun c hc => ?_⟩
    have hnot := List.head?_dropWhile_not Char.isDigit body
    rwa [hc] at hnot
  by_cases hplus : cs.head? = some '+'
  · obtain ⟨body, rfl⟩ := List.head?_eq_some_iff.mp hplus
    obtain ⟨ds, rest, rfl, hd, hr⟩ := hbody body
    exact ⟨['+'], ds, rest, false, rfl, .plus, hd, hr, nofun⟩
  by_cases hminus : cs.head? = some '-'
  · obtain ⟨body, rfl⟩ := List.head?_eq_some_iff.mp hminus
    obtain ⟨ds, rest, rfl, hd, hr⟩ := hbody body
    exact ⟨['-'], ds, rest, true, rfl, .minus, hd, hr, nofun⟩
  · obtain ⟨ds, rest, rfl, hd, hr⟩ := hbody cs
    exact ⟨[], ds, rest, false, rfl, .none, hd, hr, fun _ => ⟨hplus, hminus⟩⟩

namespace Splits

/-- The number is negative exactly if the text starts with a minus sign. -/
theorem head?_eq_minus_iff (h : Splits cs sign ds rest negative) : cs.head? = some '-' ↔ negative = true := by
  obtain ⟨rfl, hs, _, _, hunsigned⟩ := h
  cases hs with
  | none => simpa using (hunsigned rfl).2
  | plus => simp
  | minus => simp

/-- A sign and digits in front of the text are its sign and some of its digits. -/
theorem of_prefix {sign' ds' tail : List Char} {negative' : Bool} (h : Splits cs sign ds rest negative)
    (hs : Sign sign' negative') (hd : AllDigits ds') (hne : ds' ≠ []) (heq : sign' ++ ds' ++ tail = cs) :
    negative' = negative ∧ sign' = sign ∧ ∃ more, ds = ds' ++ more ∧ tail = more ++ rest := by
  obtain ⟨rfl, hsign, _, hrest, hunsigned⟩ := h
  -- behind the same sign, the digits go on as long as there are digits
  have hdigits (heq : ds' ++ tail = ds ++ rest) : ∃ more, ds = ds' ++ more ∧ tail = more ++ rest := by
    rcases List.append_eq_append_iff.mp heq with ⟨more, hds, htail⟩ | ⟨more, hds', hrest'⟩
    · exact ⟨more, hds, htail⟩
    · cases more with
      | nil => exact ⟨[], by rw [hds', List.append_nil, List.append_nil], hrest'.symm⟩
      | cons c more =>
        have hdigit := hd c (by simp [hds'])
        rw [hrest c (by simp [hrest'])] at hdigit
        cases hdigit
  -- no digit is a sign
  have hfirst {c : Char} (hc : c.isDigit = false) : ds'.head? ≠ some c := by
    intro hhead
    rw [hd c (List.mem_of_head? hhead)] at hc
    cases hc
  obtain ⟨d, ds', rfl⟩ := List.exists_cons_of_ne_nil hne
  cases hs with
  | none =>
    cases hsign with
    | none => exact ⟨rfl, rfl, hdigits heq⟩
    | plus => exact absurd (congrArg List.head? heq) (hfirst rfl)
    | minus => exact absurd (congrArg List.head? heq) (hfirst rfl)
  | plus =>
    cases hsign with
    | none => exact absurd (congrArg List.head? heq).symm (hunsigned rfl).1
    | plus => exact ⟨rfl, rfl, hdigits (List.cons.inj heq).2⟩
    | minus => cases heq
  | minus =>
    cases hsign with
    | none => exact absurd (congrArg List.head? heq).symm (hunsigned rfl).2
    | plus => cases heq
    | minus => exact ⟨rfl, rfl, hdigits (List.cons.inj heq).2⟩

/-- A text denotes a number exactly if it has digits and nothing behind them, and then the number is theirs. -/
theorem denotes_iff (h : Splits cs sign ds rest negative) :
    Denotes cs n ↔ ds ≠ [] ∧ rest = [] ∧ n = signed negative (magnitude ds) := by
  constructor
  · intro hn
    obtain @⟨sign', ds', negative', hs, hd, hne⟩ := hn
    obtain ⟨rfl, -, more, rfl, htail⟩ := h.of_prefix hs hd hne (List.append_nil _)
    obtain ⟨rfl, rfl⟩ := List.append_eq_nil_iff.mp htail.symm
    rw [List.append_nil]
    exact ⟨hne, rfl, rfl⟩
  · rintro ⟨hne, rfl, rfl⟩
    rw [h.eq, List.append_nil]
    exact .intro h.isSign h.allDigits hne

/-- A text leaves the range exactly if the number of all its digits does. -/
theorem leavesRange_iff (h : Splits cs sign ds rest negative) :
    LeavesRange cs ↔ ¬FitsInt64 (signed negative (magnitude ds)) := by
  constructor
  · rintro ⟨front, n, ⟨tail, htail⟩, hn, hout⟩ hfits
    obtain @⟨sign', ds', negative', hs, hd, hne⟩ := hn
    obtain ⟨rfl, -, more, rfl, -⟩ := h.of_prefix hs hd hne htail
    exact hout (fitsInt64_of_le (magnitude_le_append ds' more) hfits)
  · intro hout
    have hne : ds ≠ [] := by
      rintro rfl
      exact hout (fitsInt64_zero negative)
    exact ⟨sign ++ ds, _, ⟨rest, by rw [h.eq, List.append_assoc]⟩, .intro h.isSign h.allDigits hne, hout⟩

/-- A text is read from its digits on, once its sign is read. -/
theorem readSigned_eq (h : Splits cs sign ds rest negative) (hne : cs ≠ []) :
    readSigned cs = readMagnitude negative (ds ++ rest) := by
  obtain ⟨rfl, hs, _, _, hunsigned⟩ := h
  cases hs with
  | plus => rfl
  | minus => rfl
  | none =>
    obtain ⟨hplus, hminus⟩ := hunsigned rfl
    rw [List.nil_append] at hne hplus hminus ⊢
    unfold readSigned
    split
    next hnil => exact absurd hnil hne
    next hcons => exact absurd (congrArg List.head? hcons) hplus
    next hcons => exact absurd (congrArg List.head? hcons) hminus
    next => rfl

/-- A text in which no digit follows the sign is reported for an invalid digit. -/
theorem readSigned_of_nil (h : Splits cs sign [] rest negative) (hne : cs ≠ []) :
    readSigned cs = .error .invalidDigit := by
  rw [h.readSigned_eq hne, List.nil_append]
  cases rest with
  | nil => rfl
  | cons c rest =>
    unfold readMagnitude readDigits
    simp only [digit?_of_not_isDigit (h.stops c rfl)]

/-- Digits are read one by one, starting from zero. -/
theorem readSigned_of_digits (h : Splits cs sign ds rest negative) (hd : ds ≠ []) :
    readSigned cs = readDigits negative (signed negative (magnitude [])) (ds ++ rest) := by
  have hne : cs ≠ [] := by
    rw [h.eq]
    simp [hd]
  have hzero : signed negative (magnitude []) = 0 := by
    cases negative <;> rfl
  obtain ⟨d, ds, rfl⟩ := List.exists_cons_of_ne_nil hd
  rw [h.readSigned_eq hne, hzero]
  rfl

/-- A text whose digits leave the range is not read, whatever stands behind them. -/
theorem readSigned_of_not_fits (h : Splits cs sign ds rest negative) (hout : ¬FitsInt64 (signed negative (magnitude ds))) :
    readSigned cs = .error (outOfRange negative) := by
  have hne : ds ≠ [] := by
    rintro rfl
    exact hout (fitsInt64_zero negative)
  rw [h.readSigned_of_digits hne]
  exact readDigits_of_not_fits h.allDigits (fitsInt64_zero negative) hout rest

/-- Digits whose number fits are read up to the rest, which decides. -/
theorem readSigned_of_fits (h : Splits cs sign ds rest negative) (hne : ds ≠ [])
    (hfits : FitsInt64 (signed negative (magnitude ds))) :
    readSigned cs = readDigits negative (signed negative (magnitude ds)) rest := by
  rw [h.readSigned_of_digits hne]
  exact readDigits_of_fits h.allDigits hfits rest

end Splits

/-! ## What is read -/

theorem Denotes.ne_nil (h : Denotes cs n) : cs ≠ [] := by
  obtain ⟨_, _, hne⟩ := h
  simp [hne]

theorem LeavesRange.ne_nil (h : LeavesRange cs) : cs ≠ [] := by
  obtain ⟨front, n, hfront, hn, _⟩ := h
  exact fun hnil => hn.ne_nil (List.prefix_nil.mp (hnil ▸ hfront))

/-- A text denotes one number at most. -/
theorem Denotes.unique {m : Int} (h : Denotes cs n) (h' : Denotes cs m) : n = m := by
  obtain ⟨sign, ds, rest, negative, hs⟩ := exists_splits cs
  rw [(hs.denotes_iff.mp h).2.2, (hs.denotes_iff.mp h').2.2]

/-- A text that denotes a number of 64 bits does not leave the range, not even with its first digits only. -/
theorem Denotes.not_leavesRange (h : Denotes cs n) (hfits : FitsInt64 n) : ¬LeavesRange cs := by
  obtain ⟨sign, ds, rest, negative, hs⟩ := exists_splits cs
  obtain ⟨_, _, rfl⟩ := hs.denotes_iff.mp h
  rwa [hs.leavesRange_iff, not_not]

namespace IsFault

variable {fault fault' : IntegerFault}

/-- A text with a fault denotes no number of 64 bits. -/
theorem not_denotes (h : IsFault cs fault) (hn : Denotes cs n) : ¬FitsInt64 n := by
  intro hfits
  cases h with
  | empty hnil => exact hn.ne_nil hnil
  | tooLarge hout => exact hn.not_leavesRange hfits hout
  | tooSmall hout => exact hn.not_leavesRange hfits hout
  | invalidDigit _ _ hnone => exact hnone n hn

/-- A text has one fault at most. -/
theorem unique (h : IsFault cs fault) (h' : IsFault cs fault') : fault = fault' := by
  cases h with
  | empty hnil =>
    cases h' with
    | empty => rfl
    | tooLarge hout | tooSmall hout => exact absurd hnil hout.ne_nil
    | invalidDigit hne => exact absurd hnil hne
  | tooLarge hout hs =>
    cases h' with
    | empty hnil => exact absurd hnil hout.ne_nil
    | tooLarge => rfl
    | tooSmall _ hs' => exact absurd hs' hs
    | invalidDigit _ hin => exact absurd hout hin
  | tooSmall hout hs =>
    cases h' with
    | empty hnil => exact absurd hnil hout.ne_nil
    | tooLarge _ hs' => exact absurd hs hs'
    | tooSmall => rfl
    | invalidDigit _ hin => exact absurd hout hin
  | invalidDigit hne hin =>
    cases h' with
    | empty hnil => exact absurd hnil hne
    | tooLarge hout | tooSmall hout => exact absurd hout hin
    | invalidDigit => rfl

end IsFault

/-- A text denotes a number of 64 bits, which is read, or has a fault, which is reported. -/
theorem readSigned_cases (cs : List Char) :
    (∃ n, readSigned cs = .ok n ∧ Denotes cs n ∧ FitsInt64 n) ∨ ∃ fault, readSigned cs = .error fault ∧ IsFault cs fault := by
  by_cases hnil : cs = []
  · subst hnil
    exact .inr ⟨_, rfl, .empty rfl⟩
  obtain ⟨sign, ds, rest, negative, hs⟩ := exists_splits cs
  by_cases hfits : FitsInt64 (signed negative (magnitude ds))
  · have hin : ¬LeavesRange cs := by rwa [hs.leavesRange_iff, not_not]
    by_cases hd : ds = []
    · subst hd
      exact .inr ⟨_, hs.readSigned_of_nil hnil, .invalidDigit hnil hin fun n hn => (hs.denotes_iff.mp hn).1 rfl⟩
    have hread := hs.readSigned_of_fits hd hfits
    cases rest with
    | nil => exact .inl ⟨_, hread, hs.denotes_iff.mpr ⟨hd, rfl, rfl⟩, hfits⟩
    | cons c rest =>
      simp only [readDigits, digit?_of_not_isDigit (hs.stops c rfl)] at hread
      exact .inr ⟨_, hread, .invalidDigit hnil hin fun n hn => List.cons_ne_nil c rest (hs.denotes_iff.mp hn).2.1⟩
  · have hout := hs.leavesRange_iff.mpr hfits
    have hread := hs.readSigned_of_not_fits hfits
    have hminus := hs.head?_eq_minus_iff
    cases negative with
    | true => exact .inr ⟨_, hread, .tooSmall hout (hminus.mpr rfl)⟩
    | false => exact .inr ⟨_, hread, .tooLarge hout fun hhead => Bool.false_ne_true (hminus.mp hhead)⟩

/-- A text is read as the number of 64 bits that it denotes. -/
theorem readInt64_eq_ok_iff {n : Int64} : readInt64 cs = .ok n ↔ Denotes cs n.toInt := by
  rw [readInt64]
  rcases readSigned_cases cs with ⟨m, hread, hm, hfits⟩ | ⟨fault, hread, hfault⟩
  · have hword : (Int64.ofInt m).toInt = m := Int64.toInt_ofInt_of_le hfits.1 hfits.2
    rw [hread, Except.map, Except.ok.injEq]
    constructor
    · rintro rfl
      rwa [hword]
    · intro hn
      rw [hm.unique hn, Int64.ofInt_toInt]
  · rw [hread]
    refine ⟨fun hok => ?_, fun hn => absurd (fitsInt64_toInt n) (hfault.not_denotes hn)⟩
    cases hok

/-- A text that is not read has the fault that is reported. -/
theorem readInt64_eq_error_iff {fault : IntegerFault} : readInt64 cs = .error fault ↔ IsFault cs fault := by
  rw [readInt64]
  rcases readSigned_cases cs with ⟨m, hread, hm, hfits⟩ | ⟨fault', hread, hfault⟩
  · rw [hread]
    refine ⟨fun herror => ?_, fun hfault => absurd hfits (hfault.not_denotes hm)⟩
    cases herror
  · rw [hread, Except.map, Except.error.injEq]
    constructor
    · rintro rfl
      exact hfault
    · exact fun h => hfault.unique h

example : readInt64 "-009223372036854775809x".toList = .error .tooSmall := by decide +kernel

/-! ## What is written -/

theorem worth_digitChar {d : Nat} (h : d < 10) : worth (Nat.digitChar d) = d := by
  revert d
  decide

/-- The digits of a number denote the number. -/
theorem magnitude_toDigits (n : Nat) : magnitude (Nat.toDigits 10 n) = n := by
  induction n using decimal_induction with
  | digit d hd =>
    rw [Nat.toDigits_of_lt_base hd, ← List.nil_append [_], magnitude_concat, worth_digitChar hd]
    exact Nat.zero_add d
  | push n d hn hd ih => rw [toDigits_push hn hd, magnitude_concat, ih, worth_digitChar hd]

/-- The digits of a number, after a minus sign if it is negative, denote it. -/
theorem denotes_writeInt (n : Int) : Denotes (writeInt n) n := by
  have hdigits : AllDigits (Nat.toDigits 10 n.natAbs) := fun _ hc => Nat.isDigit_of_mem_toDigits (by decide) (by decide) hc
  unfold writeInt
  split
  next hn =>
    have hdenotes := Denotes.intro .minus hdigits Nat.toDigits_ne_nil
    have hvalue : signed true n.natAbs = n := by
      simp only [signed, if_true]
      omega
    rwa [magnitude_toDigits, hvalue] at hdenotes
  next hn =>
    have hdenotes := Denotes.intro .none hdigits Nat.toDigits_ne_nil
    have hvalue : signed false n.natAbs = n := by
      simp only [signed, Bool.false_eq_true, if_false]
      omega
    rwa [magnitude_toDigits, hvalue] at hdenotes

/-- An id is read back from its digits. -/
theorem readInt64_writeInt (n : Int64) : readInt64 (writeInt n.toInt) = .ok n :=
  readInt64_eq_ok_iff.mpr (denotes_writeInt n.toInt)

end RecordQuery.Number
