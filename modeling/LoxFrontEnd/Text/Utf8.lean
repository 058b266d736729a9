/-! Texts as bytes.

Bytes are read as UTF-8 as a whole or not at all. Every text reads back from its
bytes (`ofUtf8?_toUtf8`), and nothing else is read (`ofUtf8?_eq_some_iff`). -/
namespace LoxFrontEnd.Text

/-- The UTF-8 form of a text. -/
def toUtf8 (s : String) : List UInt8 := s.toByteArray.data.toList

/-- The text that has the given UTF-8 form. -/
def ofUtf8? (bytes : List UInt8) : Option String := String.fromUTF8? ⟨bytes.toArray⟩

theorem ofUtf8?_eq_some_iff {bytes : List UInt8} {s : String} :
    ofUtf8? bytes = some s ↔ bytes = toUtf8 s := by
  simp only [ofUtf8?, String.fromUTF8?, toUtf8]
  split
  · next h =>
    rw [Option.some_inj]
    constructor
    · rintro rfl
      rfl
    · rintro rfl
      rfl
  · next h =>
    simp only [reduceCtorEq, false_iff]
    rintro rfl
    exact h s.isValidUTF8

theorem ofUtf8?_toUtf8 (s : String) : ofUtf8? (toUtf8 s) = some s :=
  ofUtf8?_eq_some_iff.2 rfl

end LoxFrontEnd.Text
