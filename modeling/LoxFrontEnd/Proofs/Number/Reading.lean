import LoxFrontEnd.Number.Reading
import LoxFrontEnd.Proofs.Number.Text

/-! Reading a numeral.

A numeral has no sign and no exponent, and digits on both sides of its point if it has one. It is
a text that denotes a number, and that number has no sign and is not a NaN
(`Number.ofText?_numeral`, `Number.unsigned_of_numeral`). -/
namespace LoxFrontEnd

theorem splitSign_numeral {cs : List Char} (h : Item (some .number) cs) :
    splitSign cs = (false, cs) := by
  obtain ⟨d, rest, rfl, hd⟩ := Decimal.exists_cons_of_numeral h
  rw [splitSign]
  · rintro ds ⟨⟩
    cases hd
  · rintro ds ⟨⟩
    cases hd

namespace Decimal

theorem splitDigits_integer {ds : List Char} (h : Digits ds) : splitDigits ds = (ds, [], []) := by
  simp [splitDigits, h.takeWhile_eq, h.dropWhile_eq]

theorem splitDigits_decimal {ds es : List Char} (hds : Digits ds) (hes : Digits es) :
    splitDigits (ds ++ '.' :: es) = (ds, es, []) := by
  simp [splitDigits, hds.takeWhile_point, hds.dropWhile_point, hes.takeWhile_eq, hes.dropWhile_eq]

/-- A numeral spells its decimal. -/
theorem ofText?_numeral {cs : List Char} (h : Item (some .number) cs) :
    ofText? cs = some (ofNumeral cs) := by
  cases h with
  | integer hds =>
    simp [ofText?, splitDigits_integer hds, ofNumeral_integer hds, hds.ne_nil, exponent?]
  | decimal hds hes =>
    simp [ofText?, splitDigits_decimal hds hes, ofNumeral_decimal hds, hds.ne_nil, exponent?]

theorem nearest_ofNumeral (cs : List Char) : (ofNumeral cs).nearest = Number.ofNumeral cs := by
  simp [nearest, ofNumeral, Number.ofNumeral]

end Decimal

namespace Number

/-- A numeral denotes a number. -/
theorem ofText?_numeral {cs : List Char} (h : Item (some .number) cs) :
    ofText? cs = some (ofNumeral cs) := by
  simp [ofText?, splitSign_numeral h, Decimal.ofText?_numeral h, Decimal.nearest_ofNumeral]

example : ofText? "2.75".toList = some ⟨0x4006000000000000⟩ ∧ ofText? "2.7.5".toList = none ∧
    ofText? "-NaN".toList = some nan.negate := by decide +kernel

theorem unsigned_of_numeral {cs : List Char} {x : Number} (h : Item (some .number) cs)
    (hx : ofText? cs = some x) : x.Unsigned := by
  rw [ofText?_numeral h] at hx
  cases hx
  exact unsigned_ofNumeral cs

end Number

end LoxFrontEnd
