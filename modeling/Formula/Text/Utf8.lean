/-!
# UTF-8 text

A source is read byte by byte and a token's text is read back from its bytes. `encode` and `decode?`
are the two directions. Decoding undoes encoding (`decode?_encode`), and nothing else decodes
(`encode_of_decode?`).
-/

namespace Formula.Utf8

def encode (text : String) : List UInt8 := text.toByteArray.data.toList

/-- The text with these bytes, if they are well-formed UTF-8. -/
def decode? (bytes : List UInt8) : Option String := String.fromUTF8? ⟨bytes.toArray⟩

@[simp] theorem decode?_encode (text : String) : decode? (encode text) = some text := by
  simp only [decode?, encode, Array.toArray_toList, String.fromUTF8?]
  exact dif_pos text.isValidUTF8

theorem encode_of_decode? {bytes : List UInt8} {text : String} (h : decode? bytes = some text) :
    encode text = bytes := by
  unfold decode? String.fromUTF8? at h
  split at h
  · simp only [Option.some.injEq] at h
    subst h
    simp [encode, String.fromUTF8]
  · simp at h

@[simp] theorem length_encode (text : String) : (encode text).length = text.utf8ByteSize := by
  simp only [encode, Array.length_toList, ← String.size_toByteArray]
  rfl

@[simp] theorem encode_empty : encode "" = [] := rfl

theorem encode_append (first second : String) :
    encode (first ++ second) = encode first ++ encode second := by
  simp [encode, String.toByteArray_append, ByteArray.data_append]

theorem encode_inj {first second : String} : encode first = encode second ↔ first = second := by
  refine ⟨fun h => ?_, fun h => h ▸ rfl⟩
  have := congrArg decode? h
  simpa using this

end Formula.Utf8
