/-!
Texts as bytes. A text on the wire, in a file or on standard input is its UTF-8
form. `ofBytes?` reads exactly the byte strings that `bytes` writes
(`ofBytes?_eq_some_iff`), so no two texts share a form.
-/

namespace HookRelay.Text

/-- The UTF-8 form of a text. -/
def bytes (s : String) : List UInt8 :=
  s.toByteArray.data.toList

/-- The text with this UTF-8 form, if the bytes are well-formed UTF-8. -/
def ofBytes? (bs : List UInt8) : Option String :=
  String.fromUTF8? ⟨bs.toArray⟩

theorem bytes_inj {s t : String} : bytes s = bytes t ↔ s = t := by
  constructor
  · intro h
    apply String.toByteArray_inj.mp
    apply ByteArray.ext
    exact Array.toList_inj.mp h
  · rintro rfl
    rfl

theorem ofBytes?_eq_some_iff {bs : List UInt8} {s : String} :
    ofBytes? bs = some s ↔ bs = bytes s := by
  unfold ofBytes? String.fromUTF8? bytes
  constructor
  · intro h
    split at h
    · rw [← Option.some.inj h]
      rfl
    · simp at h
  · rintro rfl
    have hval : (⟨s.toByteArray.data.toList.toArray⟩ : ByteArray) = s.toByteArray := by
      simp
    rw [hval, dif_pos s.isValidUTF8]
    rfl

@[simp] theorem ofBytes?_bytes (s : String) : ofBytes? (bytes s) = some s :=
  ofBytes?_eq_some_iff.mpr rfl

end HookRelay.Text
