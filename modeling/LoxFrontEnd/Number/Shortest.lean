import LoxFrontEnd.Number.Basic

/-! The shortest decimal that reads back.

Every finite positive number has an interval of reals that are nearer to it than
to any other number; an end of the interval belongs to it if the significand is
even. A grid is the set of multiples of a power of ten. The shortest decimal of
a number is the point of its interval on the coarsest grid that has one, and of
two such points the nearer one. -/
namespace LoxFrontEnd

/-- The decimal `digits * 10 ^ exponent`. -/
structure Decimal where
  digits : Nat
  exponent : Int
deriving DecidableEq, Repr

namespace Number

/-- The positive number `significand * 2 ^ scale` smallest units, and a grid `10 ^ exponent`,
both measured in a unit so small that all of them are whole. -/
structure OnGrid where
  /-- The distance between two points of the grid. -/
  step : Nat
  /-- The number itself. -/
  value : Nat
  /-- The two ends of its interval. -/
  low : Nat
  high : Nat
  /-- Whether the ends belong to the interval. -/
  closed : Bool

/-- The interval reaches half a unit of the significand to both sides, and half as
far down from a power of two, below which the numbers lie twice as close. -/
def onGrid (x : Number) (exponent : Int) : OnGrid :=
  let unit := Nat.pow 10 (-exponent).toNat <<< x.scale
  let down := if x.significand = leadingBit ∧ 0 < x.scale then 1 else 2
  { step := Nat.pow 10 exponent.toNat <<< 1076
    value := 4 * x.significand * unit
    low := (4 * x.significand - down) * unit
    high := (4 * x.significand + 2) * unit
    closed := x.significand % 2 = 0 }

namespace OnGrid

/-- Does the `n`-th point of the grid lie in the interval? -/
def holds (g : OnGrid) (n : Nat) : Bool :=
  if g.closed then g.low ≤ n * g.step && n * g.step ≤ g.high
  else g.low < n * g.step && n * g.step < g.high

/-- The last point of the grid that is not above the number. -/
def below (g : OnGrid) : Nat := g.value / g.step

/-- The nearer of the two points around the number that lie in the interval; of two
equally near ones the upper. -/
def nearest? (g : OnGrid) : Option Nat :=
  let n := g.below
  match g.holds n, g.holds (n + 1) with
  | true, true => some (if g.value - n * g.step < (n + 1) * g.step - g.value then n else n + 1)
  | true, false => some n
  | false, true => some (n + 1)
  | false, false => none

end OnGrid

/-- Tries the grids downward from `10 ^ exponent`, so many times; the last one holds the
number itself. -/
def searchGrids (x : Number) : Nat → Int → Decimal
  | 0, exponent => ⟨(x.onGrid exponent).below, exponent⟩
  | tries + 1, exponent =>
    match (x.onGrid exponent).nearest? with
    | some digits => ⟨digits, exponent⟩
    | none => searchGrids x tries (exponent - 1)

/-- The exponent of a grid too coarse for all but the point zero and perhaps one more. -/
def coarsestGrid (x : Number) : Nat :=
  (Nat.toDigits 10 ((x.significand <<< x.scale) >>> 1074)).length

/-- The exponent of a grid on which the number itself lies. -/
def exactGrid (x : Number) : Int := min (x.scale - 1074 : Int) 0

/-- The shortest decimal of a finite number, without its sign. -/
def shortest (x : Number) : Decimal :=
  if x.significand = 0 then ⟨0, 0⟩
  else searchGrids x (x.coarsestGrid - x.exactGrid).toNat x.coarsestGrid

end Number

end LoxFrontEnd
