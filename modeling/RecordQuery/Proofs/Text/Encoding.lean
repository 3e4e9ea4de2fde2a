import RecordQuery.Proofs.Text.Bytes
import RecordQuery.Registry.Source

/-!
# Texts and their bytes

What is encoded in UTF-8 is decoded to itself, a text whose bytes are in front of those of another is in front of it, and texts
are compared as their bytes are.
-/

namespace RecordQuery

/-- The bytes of a text in UTF-8. -/
def encodeUtf8 (s : String) : List UInt8 := s.toUTF8.data.toList

/-- What is decoded from bytes encodes to them. -/
theorem encodeUtf8_of_decodeUtf8? {bytes : List UInt8} {s : String} (h : decodeUtf8? bytes = some s) :
    encodeUtf8 s = bytes := by
  rw [decodeUtf8?, String.fromUTF8?] at h
  split at h
  next hv =>
    cases h
    rfl
  next => cases h

/-- A text is in front of another if its bytes are in front of the bytes of the other. -/
theorem exists_append_of_encodeUtf8 {p q : String} {bytes : List UInt8} (h : encodeUtf8 q = encodeUtf8 p ++ bytes) :
    ∃ r, q = p ++ r := by
  have hbytes : p.toList.utf8Encode ++ ⟨bytes.toArray⟩ = q.toList.utf8Encode := by
    rw [String.utf8Encode_toList, String.utf8Encode_toList]
    refine ByteArray.ext (Array.toList_inj.mp ?_)
    rw [ByteArray.data_append, Array.toList_append]
    exact h.symm
  obtain ⟨r, hr⟩ := List.isPrefix_of_utf8Encode_append_eq_utf8Encode _ hbytes
  refine ⟨String.ofList r, String.toList_inj.mp ?_⟩
  rw [String.toList_append, String.toList_ofList, hr]

/-- The bytes of a text are those of its characters, one behind the other. -/
theorem encodeUtf8_eq_flatMap (s : String) : encodeUtf8 s = s.toList.flatMap String.utf8EncodeChar := by
  rw [encodeUtf8, String.toUTF8, ← String.utf8Encode_toList, List.utf8Encode, List.data_toByteArray]

/-- Texts are compared as their bytes are. -/
theorem encodeUtf8_lt_of_compare {s u : String} (h : compare s u = .lt) : encodeUtf8 s < encodeUtf8 u := by
  have hlt : s < u := compareOfLessAndEq_eq_lt.mp h
  rw [encodeUtf8_eq_flatMap, encodeUtf8_eq_flatMap]
  exact Text.utf8_lt_of_lt hlt

/-- The bytes of a text are decoded to it. -/
theorem decodeUtf8?_encodeUtf8 (s : String) : decodeUtf8? (encodeUtf8 s) = some s := dif_pos s.isValidUTF8

/-- Texts with the same bytes are the same. -/
theorem encodeUtf8_injective {s u : String} (h : encodeUtf8 s = encodeUtf8 u) : s = u := by
  have hdecode := congrArg decodeUtf8? h
  rw [decodeUtf8?_encodeUtf8, decodeUtf8?_encodeUtf8] at hdecode
  exact Option.some.inj hdecode

end RecordQuery
