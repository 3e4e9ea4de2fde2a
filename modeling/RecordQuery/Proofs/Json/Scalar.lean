import RecordQuery.Json.Printer
import RecordQuery.Json.Reader
import RecordQuery.Proofs.Number.Decimal
import RecordQuery.Proofs.Text.Split

/-!
# Numbers and strings read from their text

An integer that fits a word is read from its digits, in front of anything that cannot belong to a number (`Ends`); a string is
read from its characters and their escapes, and ends at its closing quote.
-/

namespace RecordQuery.Json

open Text (Layout StartsSolid isLayout)
open Number (digit? digits)

/-! ## What stands in front -/

/-- Something is ahead that is no layout and closes neither a list nor an object. -/
def StartsValue (text : List Char) : Prop :=
  ∃ c rest, text = c :: rest ∧ isLayout c = false ∧ c ≠ ']' ∧ c ≠ '}'

/-- What starts a value still starts one with more text behind it. -/
theorem StartsValue.append {text : List Char} (h : StartsValue text) (rest : List Char) : StartsValue (text ++ rest) := by
  obtain ⟨c, text, rfl, hc⟩ := h
  exact ⟨c, text ++ rest, rfl, hc⟩

/-- A text that starts a value has no layout in front. -/
theorem StartsValue.startsSolid {text : List Char} (h : StartsValue text) : StartsSolid text := by
  obtain ⟨c, rest, rfl, hc, _⟩ := h
  exact Text.startsSolid_cons.mpr hc

/-- A written integer starts a value: a sign or a digit is ahead. -/
theorem startsValue_writeInt (n : Int) : StartsValue (Number.writeInt n) := by
  unfold Number.writeInt
  split
  · exact ⟨'-', _, rfl, by decide⟩
  · obtain ⟨d, cs, _, hcs⟩ := Number.exists_toDigits_eq_cons n.natAbs
    refine ⟨_, _, hcs, ?_, Nat.digitChar_ne ']' rfl, Nat.digitChar_ne '}' rfl⟩
    simp [isLayout, Nat.digitChar_ne ' ' rfl, Nat.digitChar_ne '\t' rfl, Nat.digitChar_ne '\n' rfl, Nat.digitChar_ne '\r' rfl]

/-- Layout is skipped up to the first character that is none. -/
theorem skipLayout_layout {front text : List Char} (hf : Layout front) (ht : StartsSolid text) (o : Nat) :
    (⟨o, front ++ text⟩ : Cursor).skipLayout = ⟨o + front.length, text⟩ := by
  rw [Cursor.skipLayout, Text.takeWhile_run hf ht, Text.dropWhile_run hf ht]

theorem skipLayout_solid {text : List Char} (ht : StartsSolid text) (o : Nat) :
    (⟨o, text⟩ : Cursor).skipLayout = ⟨o, text⟩ :=
  skipLayout_layout Text.layout_nil ht o

/-- Layout in front of a character that is none is skipped up to that character. -/
theorem skipLayout_mark {front : List Char} (hf : Layout front) {c : Char} (hc : isLayout c = false) (o : Nat)
    (rest : List Char) : (⟨o, front ++ c :: rest⟩ : Cursor).skipLayout = ⟨o + front.length, c :: rest⟩ :=
  skipLayout_layout hf (Text.startsSolid_cons.mpr hc) o

/-- What may follow a number: nothing that could belong to it. -/
def Ends (rest : List Char) : Prop := ∀ c, rest.head? = some c → digit? c = none ∧ c ≠ '.' ∧ c ≠ 'e' ∧ c ≠ 'E'

theorem ends_nil : Ends [] := nofun

/-- A number may be followed by a character that cannot belong to one. -/
theorem ends_mark {c : Char} (hc : digit? c = none ∧ c ≠ '.' ∧ c ≠ 'e' ∧ c ≠ 'E') (rest : List Char) : Ends (c :: rest) := by
  intro d hd
  cases hd
  exact hc

/-- A number may be followed by layout, if what is behind the layout may follow it. -/
theorem ends_layout {front : List Char} (hf : Layout front) {rest : List Char} (hr : Ends rest) : Ends (front ++ rest) := by
  cases front with
  | nil => exact hr
  | cons c front =>
    intro d hd
    cases hd
    have hc := hf c List.mem_cons_self
    simp only [isLayout, Bool.or_eq_true, beq_iff_eq] at hc
    rcases hc with ((rfl | rfl) | rfl) | rfl <;> decide

/-! ## Numbers -/

/-- An integer that is no floating-point number when it is read. -/
def FitsWord (n : Int) : Prop := -0x8000000000000000 ≤ n ∧ n < 0x10000000000000000

/-- The digits of a number that fits a word add up to it, and digits behind them go on from there. -/
theorem wholeDigits_digits {n : Nat} (h : n < UInt64.size) (ds : List Nat) :
    wholeDigits 0 (digits n ++ ds) = wholeDigits n ds := by
  induction n using Number.decimal_induction generalizing ds with
  | digit d hd =>
    have hfits : fitsWord 0 d = true := by
      simp only [fitsWord, decide_eq_true_eq]
      omega
    rw [Number.digits_of_lt hd, List.singleton_append, wholeDigits, if_pos hfits, Nat.zero_mul, Nat.zero_add]
  | push n d hn hd ih =>
    have hfits : fitsWord n d = true := by
      simp only [fitsWord, decide_eq_true_eq]
      omega
    rw [Number.digits_push hn hd, List.append_assoc, List.singleton_append, ih (by omega), wholeDigits, if_pos hfits,
      Nat.mul_comm]

/-- The digits of a number are taken up to what may follow it. -/
theorem takeDigits_toDigits (n o : Nat) {rest : List Char} (hr : Ends rest) :
    takeDigits ⟨o, Nat.toDigits 10 n ++ rest⟩ = (digits n, ⟨o + (Nat.toDigits 10 n).length, rest⟩) := by
  have hrun : (Nat.toDigits 10 n ++ rest).takeWhile (fun d => (digit? d).isSome) = Nat.toDigits 10 n := by
    refine Text.takeWhile_run (fun c hc => Number.isSome_digit?_of_mem hc) fun c hc => ?_
    rw [(hr c hc).1]
    rfl
  simp only [takeDigits, hrun, digits, List.drop_left]

/-- Where no fraction and no exponent is ahead, a whole number is an integer. -/
theorem readRest_of_ends {negative : Bool} {m : Nat} {n : Int} (hn : integer? negative m = some n) (o : Nat)
    {rest : List Char} (hr : Ends rest) : readRest negative ⟨m, 0⟩ ⟨o, rest⟩ = .ok (.integer n, ⟨o, rest⟩) := by
  unfold readRest
  split
  next h => exact absurd rfl (hr '.' (congrArg List.head? h)).2.1
  next h => exact absurd rfl (hr 'e' (congrArg List.head? h)).2.2.1
  next h => exact absurd rfl (hr 'E' (congrArg List.head? h)).2.2.2
  next => simp only [if_true, hn]

/-- The digits of a number that fits a word are read as the integer with the sign in front of them. -/
theorem readUnsigned_toDigits {negative : Bool} {m : Nat} {n : Int} (hm : m < UInt64.size) (hn : integer? negative m = some n)
    (o : Nat) {rest : List Char} (hr : Ends rest) :
    ∃ o', readUnsigned negative ⟨o, Nat.toDigits 10 m ++ rest⟩ = .ok (.integer n, ⟨o', rest⟩) := by
  have hwhole : wholeDigits 0 (digits m) = ⟨m, 0⟩ := by
    have hall := wholeDigits_digits hm []
    rwa [List.append_nil, wholeDigits] at hall
  obtain ⟨d, ds, hds, hzero⟩ := Number.exists_digits_eq_cons m
  unfold readUnsigned
  rw [takeDigits_toDigits m o hr]
  split
  next h =>
    rw [hds] at h
    cases h
  next h =>
    -- only zero has a zero in front, and it has no other digit
    rw [hds] at h
    cases h
    rcases hzero with ⟨_, hnil⟩ | hpos
    · cases hnil
    · omega
  next h =>
    cases h
    rw [hwhole]
    exact ⟨_, readRest_of_ends hn _ hr⟩

/-- The magnitude of an integer that fits a word fits a word. -/
theorem FitsWord.natAbs_lt {n : Int} (h : FitsWord n) : n.natAbs < UInt64.size := by
  obtain ⟨hlow, hhigh⟩ := h
  simp only [UInt64.size]
  omega

/-- An integer that fits a word is made up again from its sign and its magnitude. -/
theorem integer?_natAbs {n : Int} (h : FitsWord n) : integer? (decide (n < 0)) n.natAbs = some n := by
  obtain ⟨hlow, hhigh⟩ := h
  unfold integer?
  by_cases hneg : n < 0
  · have hrange : 0 < n.natAbs ∧ n.natAbs ≤ 0x8000000000000000 := by omega
    have hvalue : -(n.natAbs : Int) = n := by omega
    simp only [hneg, decide_true, Bool.not_true, Bool.false_eq_true, if_false, hrange, and_self, if_true, hvalue]
  · have hvalue : (n.natAbs : Int) = n := by omega
    simp only [hneg, decide_false, Bool.not_false, if_true, hvalue]

/-- A digit in front starts a number without a sign. -/
theorem readScalar_toDigits (steps n o : Nat) (rest : List Char) :
    readScalar steps ⟨o, Nat.toDigits 10 n ++ rest⟩ =
      (readUnsigned false ⟨o, Nat.toDigits 10 n ++ rest⟩).map fun read => (.number read.1, read.2) := by
  obtain ⟨d, cs, hd, hcs⟩ := Number.exists_toDigits_eq_cons n
  rw [hcs]
  unfold readScalar
  split
  next h => cases h
  next h => exact absurd (List.cons.inj h).1 (Nat.digitChar_ne 'n' rfl)
  next h => exact absurd (List.cons.inj h).1 (Nat.digitChar_ne 't' rfl)
  next h =>
    -- the letter is the hexadecimal digit 15
    have hletter : d = 15 := Nat.digitChar_eq_f.mp (List.cons.inj h).1
    omega
  next h => exact absurd (List.cons.inj h).1 (Nat.digitChar_ne '"' rfl)
  next h => exact absurd (List.cons.inj h).1 (Nat.digitChar_ne '-' rfl)
  next h =>
    obtain ⟨rfl, -⟩ := List.cons.inj h
    rw [Number.digit?_digitChar hd]
    rfl

/-- An integer that fits a word is read from its written form, in front of all that may follow a number. -/
theorem readScalar_writeInt {n : Int} (hn : FitsWord n) (steps o : Nat) {rest : List Char} (hr : Ends rest) :
    ∃ o', readScalar steps ⟨o, Number.writeInt n ++ rest⟩ = .ok (.number (.integer n), ⟨o', rest⟩) := by
  have hint := integer?_natAbs hn
  unfold Number.writeInt
  split
  next hneg =>
    rw [decide_eq_true hneg] at hint
    obtain ⟨o', ho'⟩ := readUnsigned_toDigits hn.natAbs_lt hint (o + 1) hr
    have hread : readScalar steps ⟨o, '-' :: Nat.toDigits 10 n.natAbs ++ rest⟩ =
        (readUnsigned true ⟨o + 1, Nat.toDigits 10 n.natAbs ++ rest⟩).map fun read => (.number read.1, read.2) := rfl
    rw [hread, ho']
    exact ⟨o', rfl⟩
  next hneg =>
    rw [decide_eq_false hneg] at hint
    obtain ⟨o', ho'⟩ := readUnsigned_toDigits hn.natAbs_lt hint o hr
    rw [readScalar_toDigits, ho']
    exact ⟨o', rfl⟩

/-! ## Strings -/

/-- A hexadecimal digit is read from its character. -/
theorem hexDigit?_digitChar {d : Nat} (h : d < 16) : hexDigit? (Nat.digitChar d) = some d := by
  revert d
  decide

theorem utf8Size_digitChar {d : Nat} (h : d < 16) : (Nat.digitChar d).utf8Size = 1 := by
  revert d
  decide

/-- Four hexadecimal digits are read as the number that they write. -/
theorem readHex_digitChar {a b c d : Nat} (ha : a < 16) (hb : b < 16) (hc : c < 16) (hd : d < 16) (o : Nat)
    (rest : List Char) :
    readHex ⟨o, Nat.digitChar a :: Nat.digitChar b :: Nat.digitChar c :: Nat.digitChar d :: rest⟩ =
      .ok (16 * (16 * (16 * a + b) + c) + d, ⟨o + 4, rest⟩) := by
  simp [readHex, utf8Size_digitChar, hexDigit?_digitChar, ha, hb, hc, hd]

/-- A character has the escape that is written for it. -/
theorem readEscape_letter {c e : Char} (h : escapeLetter? c = some e) (o : Nat) (rest : List Char) :
    readEscape ⟨o, e :: rest⟩ = .ok (c, ⟨o + 1, rest⟩) := by
  unfold escapeLetter? at h
  repeat' split at h
  all_goals cases h
  all_goals
    subst_vars
    rfl

/-- A control character is read from the code point that is written for it. -/
theorem readEscape_control {c : Char} (h : c.toNat < 0x20) (o : Nat) (rest : List Char) :
    readEscape ⟨o, 'u' :: '0' :: '0' :: Nat.digitChar (c.toNat / 16) :: Nat.digitChar (c.toNat % 16) :: rest⟩ =
      .ok (c, ⟨o + 5, rest⟩) := by
  have hzero : Nat.digitChar 0 = '0' := rfl
  have hhex := @readHex_digitChar 0 0 (c.toNat / 16) (c.toNat % 16) (by decide) (by decide) (by omega) (by omega) (o + 1) rest
  have hvalue : 16 * (16 * (16 * 0 + 0) + c.toNat / 16) + c.toNat % 16 = c.toNat := by omega
  rw [hzero, hvalue] at hhex
  have hcode : readEscape ⟨o, 'u' :: '0' :: '0' :: Nat.digitChar (c.toNat / 16) :: Nat.digitChar (c.toNat % 16) :: rest⟩ =
      readCodePoint ⟨o + 1, '0' :: '0' :: Nat.digitChar (c.toNat / 16) :: Nat.digitChar (c.toNat % 16) :: rest⟩ := rfl
  have htrailing : isTrailing c.toNat = false := by
    simp only [isTrailing, Bool.and_eq_false_iff, decide_eq_false_iff_not]
    omega
  have hleading : isLeading c.toNat = false := by
    simp only [isLeading, Bool.and_eq_false_iff, decide_eq_false_iff_not]
    omega
  rw [hcode, readCodePoint, hhex]
  simp [bind, Except.bind, htrailing, hleading, Char.ofNat_toNat]

/-- What stands for a character in a string is read as the character. -/
theorem readStringFrom_stringChar (steps : Nat) (done : List Char) (o : Nat) (c : Char) (text : List Char) :
    ∃ o', readStringFrom (steps + 1) done ⟨o, stringChar c ++ text⟩ = readStringFrom steps (c :: done) ⟨o', text⟩ := by
  unfold stringChar
  split
  next e he =>
    refine ⟨o + 2, ?_⟩
    rw [List.cons_append, List.singleton_append, readStringFrom]
    simp only [Cursor.past, readEscape_letter he]
  next hnone =>
    split
    next hcontrol =>
      refine ⟨o + 6, ?_⟩
      simp only [List.cons_append, List.nil_append]
      rw [readStringFrom]
      simp only [Cursor.past, readEscape_control hcontrol]
    next hcontrol =>
      refine ⟨o + c.utf8Size, ?_⟩
      have hquote : c ≠ '"' := by
        rintro rfl
        cases hnone
      have hbackslash : c ≠ '\\' := by
        rintro rfl
        cases hnone
      rw [List.singleton_append, readStringFrom]
      split
      next h => cases h
      next h => exact absurd (List.cons.inj h).1 hquote
      next h => exact absurd (List.cons.inj h).1 hbackslash
      next h =>
        obtain ⟨rfl, rfl⟩ := List.cons.inj h
        rw [if_neg hcontrol]

/-- A string is read from what stands for its characters, up to the closing quote. -/
theorem readStringFrom_flatMap {cs : List Char} {steps : Nat} (hs : cs.length < steps) (done : List Char) (o : Nat)
    (rest : List Char) :
    ∃ o', readStringFrom steps done ⟨o, cs.flatMap stringChar ++ '"' :: rest⟩ =
      .ok (String.ofList (done.reverse ++ cs), ⟨o', rest⟩) := by
  induction cs generalizing steps done o with
  | nil =>
    obtain ⟨steps, rfl⟩ := Nat.exists_eq_succ_of_ne_zero (Nat.ne_of_gt hs)
    rw [List.append_nil]
    exact ⟨o + 1, rfl⟩
  | cons c cs ih =>
    obtain ⟨steps, rfl⟩ := Nat.exists_eq_succ_of_ne_zero (Nat.ne_of_gt (Nat.zero_lt_of_lt hs))
    obtain ⟨o', hc⟩ := readStringFrom_stringChar steps done o c (cs.flatMap stringChar ++ '"' :: rest)
    obtain ⟨o'', hcs⟩ := ih (Nat.lt_of_succ_lt_succ hs) (c :: done) o'
    refine ⟨o'', ?_⟩
    rw [List.flatMap_cons, List.append_assoc, hc, hcs, List.reverse_cons, List.append_assoc, List.singleton_append]

/-- What stands for a character is not empty, so a string is no longer than its text. -/
theorem length_le_flatMap_stringChar (cs : List Char) : cs.length ≤ (cs.flatMap stringChar).length := by
  induction cs with
  | nil => exact Nat.le_refl 0
  | cons c cs ih =>
    have hc : 1 ≤ (stringChar c).length := by
      unfold stringChar
      split
      · exact Nat.succ_le_succ (Nat.zero_le _)
      · split <;> exact Nat.succ_le_succ (Nat.zero_le _)
    rw [List.flatMap_cons, List.length_append, List.length_cons]
    omega

/-- A string is read behind its opening quote. -/
theorem readString_stringChars {s : String} {steps : Nat} (hs : (stringChars s).length ≤ steps) (o : Nat) (rest : List Char) :
    ∃ text, stringChars s = '"' :: text ∧ ∃ o', readString steps ⟨o, text ++ rest⟩ = .ok (s, ⟨o', rest⟩) := by
  refine ⟨_, rfl, ?_⟩
  have hlen := length_le_flatMap_stringChar s.toList
  simp only [stringChars, List.length_cons, List.length_append, List.length_nil] at hs
  have hfits : s.toList.length < steps := by omega
  obtain ⟨o', ho'⟩ := readStringFrom_flatMap hfits [] o rest
  refine ⟨o', ?_⟩
  rw [List.append_assoc, List.singleton_append, readString, ho', List.reverse_nil, List.nil_append, String.ofList_toList]

/-- A key is read from its quoted text and the colon behind it. -/
theorem readKey_stringChars {key : String} {steps : Nat} (hs : (stringChars key).length ≤ steps) (o : Nat) (rest : List Char) :
    ∃ o', readKey steps ⟨o, stringChars key ++ ':' :: rest⟩ = .ok (key, ⟨o', rest⟩) := by
  obtain ⟨text, htext, o', hread⟩ := readString_stringChars hs (o + 1) (':' :: rest)
  have hsolid : StartsSolid (':' :: rest) := Text.startsSolid_cons.mpr rfl
  refine ⟨o' + 1, ?_⟩
  rw [htext, List.cons_append, readKey]
  simp only [Cursor.past, bind, Except.bind, hread, skipLayout_solid hsolid]

end RecordQuery.Json
