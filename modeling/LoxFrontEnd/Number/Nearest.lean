import LoxFrontEnd.Number.Basic

/-! The number nearest to a decimal.

A decimal `digits / 10 ^ places` is read as the nearest binary64 number, a tie
going to the even significand, and as infinity beyond the greatest one. The
result is never negative and never a NaN (`isNaN_ofDecimal`,
`isNegative_ofDecimal`). -/
namespace LoxFrontEnd

/-- The natural number nearest to `num / den`; a half goes to the even neighbour. -/
def roundEven (num den : Nat) : Nat :=
  let quotient := num / den
  let rest := num % den
  if 2 * rest < den ∨ 2 * rest = den ∧ quotient % 2 = 0 then quotient else quotient + 1

/-- The value of a row of decimal digits. -/
def digitsValue (cs : List Char) : Nat :=
  cs.foldl (fun n c => 10 * n + (c.toNat - '0'.toNat)) 0

namespace Number

/-- The scale at which `num / den` smallest units have a significand of 53 bits,
or the least scale if they have fewer. -/
def scaleOf (num den : Nat) : Nat := Nat.log2 (num / den) - 52

def magnitudeOfDecimal (digits places : Nat) : Nat :=
  let num := digits <<< 1074
  let den := Nat.pow 10 places
  let scale := scaleOf num den
  -- A significand rounded up to 54 bits carries into the scale, as it should.
  min (scale * leadingBit + roundEven num (den <<< scale)) infiniteMagnitude

/-- The number nearest to `digits / 10 ^ places`. -/
def ofDecimal (digits places : Nat) : Number :=
  ⟨UInt64.ofNat (magnitudeOfDecimal digits places)⟩

/-- The number that a numeral denotes: digits, or digits, a point and digits. -/
def ofNumeral (cs : List Char) : Number :=
  let whole := cs.takeWhile Char.isDigit
  let fraction := (cs.dropWhile Char.isDigit).drop 1
  ofDecimal (digitsValue (whole ++ fraction)) fraction.length

theorem magnitudeOfDecimal_le (digits places : Nat) :
    magnitudeOfDecimal digits places ≤ infiniteMagnitude := Nat.min_le_right _ _

theorem toNat_bits_ofDecimal (digits places : Nat) :
    (ofDecimal digits places).bits.toNat = magnitudeOfDecimal digits places := by
  have h := magnitudeOfDecimal_le digits places
  simp only [infiniteMagnitude] at h
  simp only [ofDecimal, UInt64.toNat_ofNat']
  omega

theorem isNaN_ofDecimal (digits places : Nat) : (ofDecimal digits places).isNaN = false := by
  have h := magnitudeOfDecimal_le digits places
  simp only [infiniteMagnitude] at h
  simp only [isNaN, magnitude, signBit, toNat_bits_ofDecimal, infiniteMagnitude,
    decide_eq_false_iff_not]
  omega

theorem isNegative_ofDecimal (digits places : Nat) :
    (ofDecimal digits places).isNegative = false := by
  have h := magnitudeOfDecimal_le digits places
  simp only [infiniteMagnitude] at h
  simp only [isNegative, signBit, toNat_bits_ofDecimal, decide_eq_false_iff_not]
  omega

end Number

end LoxFrontEnd
