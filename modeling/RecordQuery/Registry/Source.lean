/-!
# Byte sources

A source gives its bytes in chunks and then ends or fails. Reading stops as soon as it has as many bytes as are wanted, so what
comes after them, a failure included, is never seen.
-/

namespace RecordQuery

/-- Bytes in chunks, and the text of the failure with which the source stops, unless it just ends. -/
structure ByteSource where
  chunks : List (List UInt8)
  failure : Option String := none
  deriving Repr

namespace ByteSource

/-- Reads on until `limit` more bytes are there; `done` holds the bytes before, in reverse. -/
def readFrom (failure : Option String) (limit : Nat) (done : List UInt8) : List (List UInt8) → Except String (List UInt8)
  | [] =>
    match failure with
    | some text => if limit = 0 then .ok done.reverse else .error text
    | none => .ok done.reverse
  | chunk :: chunks =>
    if limit ≤ chunk.length then .ok (done.reverse ++ chunk.take limit)
    else readFrom failure (limit - chunk.length) (chunk.reverse ++ done) chunks

/-- The first `limit` bytes, or all if there are fewer; a source that fails before that has none. -/
def read (s : ByteSource) (limit : Nat) : Except String (List UInt8) := readFrom s.failure limit [] s.chunks

end ByteSource

/-- The text that bytes encode in UTF-8, unless they are no UTF-8. -/
def decodeUtf8? (bytes : List UInt8) : Option String := String.fromUTF8? ⟨bytes.toArray⟩

end RecordQuery
