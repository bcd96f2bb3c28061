import CalendarStamp.Bytes

/-!
# Texts as UTF-8

Texts are hashed and stored as their UTF-8 bytes, and texts that come from
outside are accepted only if their bytes are valid UTF-8.

Main results:

- Theorem `decode?_encode`: the bytes of a text read back as that text.
- Theorem `encode_of_decode?`: bytes that read as a text are the bytes of that text.
-/

namespace CalendarStamp.Utf8

/-- The UTF-8 bytes of a text. -/
def encode (text : String) : Bytes :=
  text.toByteArray.data.toList

/-- The text that the bytes encode, or `none` when they are not valid UTF-8. -/
def decode? (bytes : Bytes) : Option String :=
  String.fromUTF8? ⟨bytes.toArray⟩

/-- The bytes of a text read back as that text. -/
@[simp] theorem decode?_encode (text : String) : decode? (encode text) = some text := by
  obtain ⟨bytes, valid⟩ := text
  simp [decode?, encode, String.fromUTF8?, String.fromUTF8, valid]

/-- Bytes that read as a text are the bytes of that text. -/
theorem encode_of_decode? {bytes : Bytes} {text : String} (h : decode? bytes = some text) :
    encode text = bytes := by
  unfold decode? String.fromUTF8? at h
  split at h
  · simp only [Option.some.injEq] at h
    subst h
    simp [encode, String.fromUTF8]
  · simp at h

/-- Different texts have different bytes. -/
theorem encode_injective {s t : String} (h : encode s = encode t) : s = t := by
  have := congrArg decode? h
  simpa using this

@[simp] theorem encode_empty : encode "" = [] := rfl

end CalendarStamp.Utf8
