/-! Numbers.

A number is a binary64 pattern: a sign bit, eleven bits of exponent and
fifty-two of fraction. Its parts are read off as natural numbers, so that
reading and writing decimals is exact arithmetic. -/
namespace LoxFrontEnd

/-- A binary64 pattern. -/
structure Number where
  bits : UInt64
deriving DecidableEq, Inhabited, Repr

namespace Number

/-- The pattern whose only bit is the sign. -/
def signBit : Nat := 0x8000000000000000

/-- The leading bit of a significand of fifty-three bits. It is not stored, and its place is
that of the last bit of the exponent. -/
def leadingBit : Nat := 0x10000000000000

/-- The magnitude of both infinities; every greater one is that of a NaN. -/
def infiniteMagnitude : Nat := 0x7FF0000000000000

def isNegative (x : Number) : Bool := signBit ≤ x.bits.toNat

/-- Exponent and fraction together: the pattern without its sign. -/
def magnitude (x : Number) : Nat := x.bits.toNat % signBit

def isNaN (x : Number) : Bool := infiniteMagnitude < x.magnitude

def isInfinite (x : Number) : Bool := x.magnitude == infiniteMagnitude

def isZero (x : Number) : Bool := x.magnitude == 0

/-- A finite magnitude is `significand * 2 ^ scale` units of the smallest positive
number, which is `2 ^ -1074`. The least exponent has no hidden leading bit and
shares its scale with the one above it. -/
def scale (x : Number) : Nat := x.magnitude / leadingBit - 1

def significand (x : Number) : Nat :=
  if x.magnitude < leadingBit then x.magnitude else x.magnitude % leadingBit + leadingBit

/-- Numbers are equal by value: a NaN differs from every number, itself included,
and the two zeros are equal. -/
instance : BEq Number where
  beq x y := !x.isNaN && !y.isNaN && (x.bits == y.bits || x.isZero && y.isZero)

theorem beq_self_iff {x : Number} : (x == x) = true ↔ x.isNaN = false := by
  simp [BEq.beq]

end Number

end LoxFrontEnd
