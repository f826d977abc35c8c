/-!
# Text as bytes

The UTF-8 form of text. Reading is strict: overlong forms, surrogates and
code points beyond the last plane are refused, so that every run of bytes is
the form of at most one text, and every text has exactly one form.
-/

namespace CallTrace.Utf8

/-- The bytes of a text. -/
def encode (s : String) : List UInt8 := s.toUTF8.data.toList

/-- The text with the given bytes, if there is one. -/
def decode? (bytes : List UInt8) : Option String := String.fromUTF8? ⟨bytes.toArray⟩

/-- Bytes written from a text are read back. -/
theorem decode?_encode (s : String) : decode? (encode s) = some s := by
  have h : (⟨(encode s).toArray⟩ : ByteArray) = s.toUTF8 := by
    simp [encode]
  unfold decode?
  rw [h]
  simp [String.fromUTF8?, String.fromUTF8, s.isValidUTF8]

/-- Only the form of a text is read as that text. -/
theorem encode_of_decode? {bytes : List UInt8} {s : String} (h : decode? bytes = some s) :
    encode s = bytes := by
  unfold decode? String.fromUTF8? at h
  split at h
  · cases h
    simp [encode, String.fromUTF8]
  · cases h

theorem decode?_eq_some_iff {bytes : List UInt8} {s : String} :
    decode? bytes = some s ↔ bytes = encode s :=
  ⟨fun h => (encode_of_decode? h).symm, fun h => h ▸ decode?_encode s⟩

end CallTrace.Utf8
