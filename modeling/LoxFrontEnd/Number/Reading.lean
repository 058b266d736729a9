import LoxFrontEnd.Number.Nearest
import LoxFrontEnd.Number.Shortest

/-! Reading a number.

A text denotes a number if it is a decimal, or one of the words `inf`, `infinity` and `nan` in
small or capital letters, with or without a sign in front. A decimal has digits on one side of its
point or on both, or digits and no point, and may have an exponent of ten at its end; it denotes
the number nearest to it. A numeral of a source is the plainest kind of decimal, and never denotes
a NaN or a number with a sign, as other texts may. -/
namespace LoxFrontEnd

/-- Whether there is a minus in front of a text, and what is behind the sign if it has one. -/
def splitSign : List Char → Bool × List Char
  | '-' :: cs => (true, cs)
  | '+' :: cs => (false, cs)
  | cs => (false, cs)

namespace Decimal

/-- The exponent at the end of a decimal. It is zero if nothing stands there. -/
def exponent? : List Char → Option Int
  | [] => some 0
  | c :: cs =>
    let (negative, digits) := splitSign cs
    if c.toLower = 'e' ∧ digits ≠ [] ∧ digits.all Char.isDigit then
      some (if negative then -digitsValue digits else digitsValue digits)
    else none

/-- The digits before a point, those behind it, and what follows them. -/
def splitDigits (cs : List Char) : List Char × List Char × List Char :=
  let whole := cs.takeWhile Char.isDigit
  match cs.dropWhile Char.isDigit with
  | '.' :: rest => (whole, rest.takeWhile Char.isDigit, rest.dropWhile Char.isDigit)
  | rest => (whole, [], rest)

/-- The decimal that a text without a sign spells, if it spells one. -/
def ofText? (cs : List Char) : Option Decimal :=
  let (whole, fraction, tail) := splitDigits cs
  if whole ++ fraction = [] then none
  else (exponent? tail).map fun exponent =>
    ⟨digitsValue (whole ++ fraction), exponent - fraction.length⟩

/-- The number nearest to a decimal. -/
def nearest (d : Decimal) : Number :=
  .ofDecimal (d.digits * Nat.pow 10 d.exponent.toNat) (-d.exponent).toNat

end Decimal

namespace Number

def infinity : Number := ⟨UInt64.ofNat infiniteMagnitude⟩

/-- The NaN that stands for the number of a text which denotes none. -/
def nan : Number := ⟨0x7FF8000000000000⟩

def negate (x : Number) : Number := ⟨x.bits ^^^ UInt64.ofNat signBit⟩

def ofWord? (cs : List Char) : Option Number :=
  match String.ofList (cs.map Char.toLower) with
  | "inf" | "infinity" => some infinity
  | "nan" => some nan
  | _ => none

/-- The number that a text denotes, if it denotes one. -/
def ofText? (cs : List Char) : Option Number :=
  let (negative, size) := splitSign cs
  let found := ((Decimal.ofText? size).map Decimal.nearest).or (ofWord? size)
  found.map fun x => if negative then x.negate else x

end Number

end LoxFrontEnd
