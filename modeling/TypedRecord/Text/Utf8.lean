/-!
# UTF-8

The bytes of a text, and the text of bytes that are well formed. Every text is read back from its
own bytes, and bytes that are not the bytes of a text are refused.
-/
namespace TypedRecord.Utf8

/-- The bytes of a text. -/
def encode (text : String) : List UInt8 := text.toUTF8.data.toList

/-- The text of bytes, when they are well formed. -/
def decode? (bytes : List UInt8) : Option String := String.fromUTF8? ⟨bytes.toArray⟩

/-- A text is read back from its bytes. -/
@[simp] theorem decode?_encode (text : String) : decode? (encode text) = some text := by
  have valid : (⟨(encode text).toArray⟩ : ByteArray) = text.toUTF8 := by
    simp [encode]
  simp only [decode?, valid, String.fromUTF8?]
  rw [dif_pos (show text.toUTF8.IsValidUTF8 from text.isValidUTF8)]
  rfl

end TypedRecord.Utf8
