/-!
# Bytes of a text

The content of a file is a list of bytes. Bytes hold a text exactly when they
are its UTF-8 encoding.
-/

namespace ManifestSpacing

/-- The content of a file. -/
abbrev Bytes := List UInt8

namespace Bytes

/-- The encoding of a text. -/
def ofText (text : String) : Bytes := text.toUTF8.data.toList

/-- The text that bytes encode. -/
def text? (bytes : Bytes) : Option String := String.fromUTF8? ⟨bytes.toArray⟩

/-- Bytes have a text just when they are the encoding of it. -/
theorem text?_eq_some_iff {bytes : Bytes} {text : String} :
    text? bytes = some text ↔ bytes = ofText text := by
  unfold text? ofText String.fromUTF8?
  constructor
  · intro h
    split at h
    · cases h
      simp [String.fromUTF8]
    · cases h
  · intro h
    have he : (⟨bytes.toArray⟩ : ByteArray) = text.toByteArray := by
      apply ByteArray.ext
      simp [h]
    rw [dif_pos (he ▸ text.isValidUTF8)]
    exact congrArg some (String.toByteArray_inj.mp he)

/-- An encoded text is read back. -/
@[simp] theorem text?_ofText (text : String) : text? (ofText text) = some text :=
  text?_eq_some_iff.mpr rfl

theorem ofText_inj {text text' : String} : ofText text = ofText text' ↔ text = text' := by
  rw [← text?_eq_some_iff, text?_ofText, Option.some.injEq]

end Bytes

end ManifestSpacing
