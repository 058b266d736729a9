import LoxFrontEnd.Number.Shortest

/-! The written form of a number.

A number is written as its shortest decimal: with a point and at least one digit
on each side of it if it is zero or its leading digit stands between the fourth
place after the point and the sixteenth before it, and otherwise as one digit
before the point and an exponent of ten. -/
namespace LoxFrontEnd

/-- Where a decimal is written with a point only: from which exponent of its leading
digit on, and below which. -/
structure Decimal.Layout where
  positionalFrom : Int
  scientificFrom : Int

namespace Decimal

/-- The exponent of the leading digit. -/
def leading (d : Decimal) : Int := (Nat.toDigits 10 d.digits).length - 1 + d.exponent

def zeros (n : Nat) : List Char := List.replicate n '0'

/-- The decimal with a point. -/
def positional (d : Decimal) : List Char :=
  let digits := Nat.toDigits 10 d.digits
  if 0 ≤ d.exponent then digits ++ zeros d.exponent.toNat ++ ['.', '0']
  else if 0 ≤ d.leading then
    digits.take (d.leading.toNat + 1) ++ ['.'] ++ digits.drop (d.leading.toNat + 1)
  else ['0', '.'] ++ zeros (-d.leading - 1).toNat ++ digits

/-- One digit, the others after a point, and the exponent of the first. -/
def scientific (d : Decimal) : List Char :=
  let mantissa := match Nat.toDigits 10 d.digits with
    | first :: next :: rest => first :: '.' :: next :: rest
    | digits => digits
  let exponent := (if d.leading < 0 then ['-'] else []) ++ Nat.toDigits 10 d.leading.natAbs
  mantissa ++ ['e'] ++ exponent

def write (layout : Layout) (d : Decimal) : List Char :=
  if d.digits = 0 ∨ layout.positionalFrom ≤ d.leading ∧ d.leading < layout.scientificFrom then
    d.positional
  else d.scientific

end Decimal

namespace Number

/-- Numbers from `0.0001` up to `10 ^ 16` are written with a point. -/
def layout : Decimal.Layout := ⟨-4, 16⟩

def toText (x : Number) : String :=
  if x.isNaN then "NaN"
  else
    let sign := if x.isNegative then ['-'] else []
    let size := if x.isInfinite then ['i', 'n', 'f'] else x.shortest.write layout
    String.ofList (sign ++ size)

instance : ToString Number := ⟨toText⟩

end Number

end LoxFrontEnd
