import RecordQuery.Proofs.Text.Trim

/-!
# Texts as bytes

Where a word stands in a text, by byte offsets between two characters (`StandsAt`). The bytes of texts in UTF-8 stand in the
order of the texts (`utf8_lt_of_lt`): the first byte of a character tells how many bytes it has, a larger character has no fewer
of them, and the bytes that follow the first one are the digits of the character to the base 64.
-/

namespace RecordQuery.Text

/-- A word stands in a text from one byte offset to another, both between two characters. -/
def StandsAt (text word : String) (start stop : Nat) : Prop :=
  ∃ before after, text = before ++ word ++ after ∧ start = before.utf8ByteSize ∧ stop = (before ++ word).utf8ByteSize

theorem byteLength_toList (s : String) : byteLength s.toList = s.utf8ByteSize := by
  induction s using String.push_induction with
  | empty => rfl
  | push s c ih => simp [ih]

/-- The size of a string is the length in bytes of its characters. -/
theorem utf8ByteSize_ofList (cs : List Char) : (String.ofList cs).utf8ByteSize = byteLength cs := by
  rw [← byteLength_toList, String.toList_ofList]

theorem byteLength_pos {cs : List Char} (h : cs ≠ []) : 0 < byteLength cs := by
  obtain ⟨c, cs, rfl⟩ := List.exists_cons_of_ne_nil h
  have hc := c.utf8Size_pos
  rw [byteLength_cons]
  omega

/-- A word stands behind the bytes of the text in front of it and reaches as far as its own bytes do. -/
theorem standsAt_ofList (before word after : List Char) :
    StandsAt (String.ofList (before ++ (word ++ after))) (String.ofList word) (byteLength before)
      (byteLength before + byteLength word) := by
  refine ⟨String.ofList before, String.ofList after, ?_, ?_, ?_⟩
  · rw [String.ofList_append, String.ofList_append, String.append_assoc]
  · rw [utf8ByteSize_ofList]
  · rw [String.utf8ByteSize_append, utf8ByteSize_ofList, utf8ByteSize_ofList]

/-! ## The order of bytes -/

/-- Bytes are compared by the first of them, and by what follows where these are the same. -/
theorem cons_lt_cons {m n : Nat} {as bs : List UInt8} (hn : n < 256) (h : m < n ∨ m = n ∧ as < bs) :
    UInt8.ofNat m :: as < UInt8.ofNat n :: bs := by
  refine List.cons_lt_cons_iff.mpr ?_
  rcases h with h | ⟨rfl, h⟩
  · refine .inl (UInt8.lt_iff_toNat_lt.mpr ?_)
    rwa [UInt8.toNat_ofNat_of_lt' (h.trans hn), UInt8.toNat_ofNat_of_lt' hn]
  · exact .inr ⟨rfl, h⟩

/-- A number without its last digits to the base 64. -/
def leading : Nat → Nat → Nat
  | 0, n => n
  | k + 1, n => leading k (n / 64)

/-- The last digits of a number to the base 64, as they follow the first byte of a character. -/
def digits : Nat → Nat → List UInt8
  | 0, _ => []
  | k + 1, n => digits k (n / 64) ++ [UInt8.ofNat (n % 64 + 0x80)]

/-- The smaller of two numbers is smaller before its last digits, or in them. -/
theorem leading_lt_or {k m n : Nat} (h : m < n) (as bs : List UInt8) :
    leading k m < leading k n ∨ leading k m = leading k n ∧ digits k m ++ as < digits k n ++ bs := by
  induction k generalizing m n as bs with
  | zero => exact .inl h
  | succ k ih =>
    simp only [leading, digits, List.append_assoc]
    rcases Nat.lt_or_eq_of_le (Nat.div_le_div_right (c := 64) h.le) with hlt | heq
    · exact ih hlt _ _
    · refine .inr ⟨by rw [heq], ?_⟩
      rw [heq]
      exact List.append_left_lt (cons_lt_cons (by omega) (.inl (by omega)))

/-- The bytes of a character: the first byte with the leading bits, and how many digits follow for a character of this size. -/
theorem exists_utf8EncodeChar_eq (c : Char) :
    ∃ k mark, String.utf8EncodeChar c = UInt8.ofNat (leading k c.toNat + mark) :: digits k c.toNat ∧
      (k = 0 ∧ mark = 0 ∧ c.toNat < 0x80 ∨ k = 1 ∧ mark = 0xc0 ∧ 0x80 ≤ c.toNat ∧ c.toNat < 0x800 ∨
        k = 2 ∧ mark = 0xe0 ∧ 0x800 ≤ c.toNat ∧ c.toNat < 0x10000 ∨
        k = 3 ∧ mark = 0xf0 ∧ 0x10000 ≤ c.toNat ∧ c.toNat < 0x110000) := by
  have hmax : c.toNat < 0x110000 := by
    rcases c.valid with h | ⟨_, h⟩
    · exact Nat.lt_trans h (by decide)
    · exact h
  by_cases h1 : c.toNat ≤ 0x7f
  · refine ⟨0, 0, ?_, .inl ⟨rfl, rfl, Nat.lt_succ_of_le h1⟩⟩
    simp [String.utf8EncodeChar, leading, digits, h1]
  by_cases h2 : c.toNat ≤ 0x7ff
  · refine ⟨1, 0xc0, ?_, .inr (.inl ⟨rfl, rfl, Nat.lt_of_not_le h1, Nat.lt_succ_of_le h2⟩)⟩
    have hmod : c.toNat / 64 % 32 = c.toNat / 64 := by omega
    simp [String.utf8EncodeChar, leading, digits, h1, h2, hmod]
  by_cases h3 : c.toNat ≤ 0xffff
  · refine ⟨2, 0xe0, ?_, .inr (.inr (.inl ⟨rfl, rfl, Nat.lt_of_not_le h2, Nat.lt_succ_of_le h3⟩))⟩
    have hmod : c.toNat / 4096 % 16 = c.toNat / 4096 := by omega
    simp [String.utf8EncodeChar, leading, digits, Nat.div_div_eq_div_mul, h1, h2, h3, hmod]
  · refine ⟨3, 0xf0, ?_, .inr (.inr (.inr ⟨rfl, rfl, Nat.lt_of_not_le h3, hmax⟩))⟩
    have hmod : c.toNat / 262144 % 8 = c.toNat / 262144 := by omega
    simp [String.utf8EncodeChar, leading, digits, Nat.div_div_eq_div_mul, h1, h2, h3, hmod]

/-- A larger character has larger bytes, whatever follows. -/
theorem utf8EncodeChar_append_lt {c d : Char} (h : c < d) (as bs : List UInt8) :
    String.utf8EncodeChar c ++ as < String.utf8EncodeChar d ++ bs := by
  have hlt : c.toNat < d.toNat := h
  obtain ⟨k, mark, hc, hk⟩ := exists_utf8EncodeChar_eq c
  obtain ⟨l, mark', hd, hl⟩ := exists_utf8EncodeChar_eq d
  have hbyte : leading l d.toNat + mark' < 256 := by
    rcases hl with ⟨rfl, rfl, _⟩ | ⟨rfl, rfl, _⟩ | ⟨rfl, rfl, _⟩ | ⟨rfl, rfl, _⟩ <;> simp only [leading] <;> omega
  rw [hc, hd]
  by_cases hkl : k = l
  · subst hkl
    have hmark : mark = mark' := by omega
    subst hmark
    refine cons_lt_cons hbyte ?_
    rcases leading_lt_or hlt as bs with hlead | ⟨hlead, hrest⟩
    · exact .inl (Nat.add_lt_add_right hlead mark)
    · exact .inr ⟨by rw [hlead], hrest⟩
  · -- of two sizes, the larger one has the larger mark
    refine cons_lt_cons hbyte (.inl ?_)
    rcases hk with ⟨rfl, rfl, _⟩ | ⟨rfl, rfl, _⟩ | ⟨rfl, rfl, _⟩ | ⟨rfl, rfl, _⟩ <;>
      rcases hl with ⟨rfl, rfl, _⟩ | ⟨rfl, rfl, _⟩ | ⟨rfl, rfl, _⟩ | ⟨rfl, rfl, _⟩ <;> simp only [leading] <;> omega

/-- The bytes of texts stand in the order of the texts. -/
theorem utf8_lt_of_lt {cs ds : List Char} (h : cs < ds) :
    cs.flatMap String.utf8EncodeChar < ds.flatMap String.utf8EncodeChar := by
  induction h with
  | nil =>
    rw [List.flatMap_nil, List.flatMap_cons]
    obtain ⟨b, bs, hb⟩ := List.exists_cons_of_ne_nil (String.utf8EncodeChar_ne_nil)
    rw [hb]
    exact List.nil_lt_cons _ _
  | rel h => exact utf8EncodeChar_append_lt h _ _
  | cons _ ih =>
    rw [List.flatMap_cons, List.flatMap_cons]
    exact List.append_left_lt ih

end RecordQuery.Text
