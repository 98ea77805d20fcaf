/-!
Texts as bytes. A file holds a list of bytes; a text is written in UTF-8 and read back only from
well-formed UTF-8.
-/

namespace Courseware

/-- The contents of a file. -/
abbrev Bytes := List UInt8

namespace Text

def utf8 (s : String) : Bytes :=
  s.toUTF8.data.toList

/-- The text that well-formed UTF-8 spells. -/
def ofUtf8? (bytes : Bytes) : Option String :=
  String.fromUTF8? ⟨bytes.toArray⟩

@[simp] theorem ofUtf8?_utf8 (s : String) : ofUtf8? (utf8 s) = some s := by
  have h : (⟨(utf8 s).toArray⟩ : ByteArray) = s.toUTF8 := by
    cases s
    simp [utf8]
  rw [ofUtf8?, h]
  simp only [String.fromUTF8?, String.toUTF8_eq_toByteArray, dif_pos s.isValidUTF8]
  rfl

end Text

end Courseware
