/-! Texts as UTF-8. Every text is read back from its bytes. -/
namespace MethodPack.Text

/-- The UTF-8 bytes of a text. -/
def toUtf8 (s : String) : List UInt8 := s.toUTF8.data.toList

/-- The text that some bytes stand for, if they are UTF-8. -/
def ofUtf8? (bytes : List UInt8) : Option String := String.fromUTF8? ⟨bytes.toArray⟩

theorem ofUtf8?_toUtf8 (s : String) : ofUtf8? (toUtf8 s) = some s := by
  have same : (⟨(toUtf8 s).toArray⟩ : ByteArray) = s.toUTF8 := by simp [toUtf8]
  rw [ofUtf8?, same]
  simp [String.fromUTF8?, String.toUTF8, String.fromUTF8, s.isValidUTF8]

theorem toUtf8_of_ofUtf8? {bytes : List UInt8} {s : String} (h : ofUtf8? bytes = some s) :
    toUtf8 s = bytes := by
  rw [ofUtf8?, String.fromUTF8?] at h
  split at h
  · cases h
    rfl
  · cases h

end MethodPack.Text
