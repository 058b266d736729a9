import LoxFrontEnd.Number.Shortest
import Mathlib.Algebra.Order.Field.Power
import Mathlib.Algebra.Order.Field.Rat
import Mathlib.Order.Monotone.Basic
import Mathlib.Tactic.Linarith
import Mathlib.Tactic.Ring

/-! The interval of a number.

The reals that are nearer to a number than to any other one lie between two ends, and where
one number's interval ends the interval of the next one begins (`highEnd_eq`). The end
between two numbers belongs to one of the two, because one of two neighbours has an even
significand. So no decimal lies in the intervals of two numbers (`Near.magnitude_eq`), and the
shortest decimal of a number lies in its own (`near_shortest`). -/
namespace LoxFrontEnd

def Decimal.value (d : Decimal) : ℚ := d.digits * 10 ^ d.exponent

namespace Number

/-! ### The ends

Both ends are counted in quarters of the smallest positive number, and are those of a magnitude,
so that the next one can be spoken of. -/

def scaleAt (m : Nat) : Nat := m / leadingBit - 1

def significandAt (m : Nat) : Nat := if m < leadingBit then m else m % leadingBit + leadingBit

/-- How far the interval reaches down from a number, in quarters of a unit of its significand. -/
def reach (significand scale : Nat) : Nat := if significand = leadingBit ∧ 0 < scale then 1 else 2

def lowEnd (m : Nat) : Nat :=
  (4 * significandAt m - reach (significandAt m) (scaleAt m)) * 2 ^ scaleAt m

def highEnd (m : Nat) : Nat := (4 * significandAt m + 2) * 2 ^ scaleAt m

theorem leadingBit_pos : 0 < leadingBit := by decide

theorem reach_pos (significand scale : Nat) : 0 < reach significand scale := by
  simp only [reach]
  split <;> omega

theorem reach_eq_two {significand scale : Nat} (h : significand ≠ leadingBit ∨ scale = 0) :
    reach significand scale = 2 := if_neg (by omega)

theorem scaleAt_of_lt {m : Nat} (h : m < leadingBit) : scaleAt m = 0 := by
  rw [scaleAt, Nat.div_eq_of_lt h]

theorem significandAt_of_lt {m : Nat} (h : m < leadingBit) : significandAt m = m := if_pos h

theorem highEnd_of_lt {m : Nat} (h : m < leadingBit) : highEnd m = 4 * m + 2 := by
  rw [highEnd, significandAt_of_lt h, scaleAt_of_lt h, Nat.pow_zero, Nat.mul_one]

theorem lowEnd_of_lt {m : Nat} (h : m < leadingBit) : lowEnd m = 4 * m - 2 := by
  rw [lowEnd, significandAt_of_lt h, scaleAt_of_lt h, reach_eq_two (.inr rfl), Nat.pow_zero,
    Nat.mul_one]

section
variable {scale rest : Nat}

theorem scaleAt_of_rest_lt (h : rest < leadingBit) :
    scaleAt ((scale + 1) * leadingBit + rest) = scale := by
  rw [scaleAt, Nat.mul_comm, Nat.mul_add_div leadingBit_pos, Nat.div_eq_of_lt h]
  rfl

theorem significandAt_of_rest_lt (h : rest < leadingBit) :
    significandAt ((scale + 1) * leadingBit + rest) = leadingBit + rest := by
  have hle : leadingBit ≤ (scale + 1) * leadingBit + rest :=
    Nat.le_add_right_of_le (Nat.le_mul_of_pos_left _ (Nat.succ_pos scale))
  rw [significandAt, if_neg (Nat.not_lt.2 hle), Nat.mul_comm, Nat.mul_add_mod,
    Nat.mod_eq_of_lt h, Nat.add_comm]

theorem highEnd_of_rest_lt (h : rest < leadingBit) :
    highEnd ((scale + 1) * leadingBit + rest) = (4 * (leadingBit + rest) + 2) * 2 ^ scale := by
  rw [highEnd, significandAt_of_rest_lt h, scaleAt_of_rest_lt h]

theorem lowEnd_of_rest_lt (h : rest < leadingBit) :
    lowEnd ((scale + 1) * leadingBit + rest) =
      (4 * (leadingBit + rest) - reach (leadingBit + rest) scale) * 2 ^ scale := by
  rw [lowEnd, significandAt_of_rest_lt h, scaleAt_of_rest_lt h]

end

/-- A magnitude is a significand below the leading bit, or it has that bit and a scale. -/
theorem magnitude_cases (m : Nat) : m < leadingBit ∨
    ∃ scale rest, rest < leadingBit ∧ m = (scale + 1) * leadingBit + rest := by
  by_cases h : m < leadingBit
  · exact .inl h
  · have hdiv : 1 ≤ m / leadingBit := (Nat.one_le_div_iff leadingBit_pos).2 (Nat.not_lt.1 h)
    refine .inr ⟨m / leadingBit - 1, m % leadingBit, Nat.mod_lt m leadingBit_pos, ?_⟩
    rw [Nat.sub_add_cancel hdiv, Nat.mul_comm, Nat.div_add_mod]

theorem significandAt_parity (m : Nat) : significandAt m % 2 = m % 2 := by
  rcases magnitude_cases m with h | ⟨scale, rest, h, rfl⟩
  · rw [significandAt_of_lt h]
  · rw [significandAt_of_rest_lt h]
    simp only [leadingBit]
    omega

theorem significandAt_eq_zero {m : Nat} (h : significandAt m = 0) : m = 0 := by
  rcases magnitude_cases m with hlt | ⟨scale, rest, hlt, rfl⟩
  · rwa [significandAt_of_lt hlt] at h
  · rw [significandAt_of_rest_lt hlt] at h
    have := leadingBit_pos
    omega

/-- The interval of a magnitude ends where that of the next one begins. -/
theorem highEnd_eq (m : Nat) : highEnd m = lowEnd (m + 1) := by
  have hpos := leadingBit_pos
  rcases magnitude_cases m with hm | ⟨scale, rest, hrest, rfl⟩
  · rw [highEnd_of_lt hm]
    rcases Nat.lt_or_eq_of_le hm with hnext | hnext
    · rw [lowEnd_of_lt hnext]
      omega
    · -- The least magnitude with the leading bit still has the scale of those without it.
      have hsplit : m + 1 = (0 + 1) * leadingBit + 0 := by omega
      rw [hsplit, lowEnd_of_rest_lt hpos, reach_eq_two (.inr rfl), Nat.pow_zero]
      omega
  · rw [highEnd_of_rest_lt hrest]
    rcases Nat.lt_or_eq_of_le hrest with hnext | hnext
    · rw [Nat.add_assoc, lowEnd_of_rest_lt hnext, reach_eq_two (.inl (by omega))]
      congr 1
    · -- Above a full significand the scale grows, and the next interval reaches half as far down.
      have hsplit : (scale + 1) * leadingBit + rest + 1 = (scale + 1 + 1) * leadingBit + 0 := by
        rw [Nat.succ_mul (scale + 1)]
        omega
      have hreach : reach (leadingBit + 0) (scale + 1) = 1 := if_pos ⟨rfl, Nat.succ_pos scale⟩
      rw [hsplit, lowEnd_of_rest_lt hpos, hreach, Nat.pow_succ, Nat.mul_comm _ 2, ← Nat.mul_assoc]
      congr 1
      omega

theorem lowEnd_lt_highEnd (m : Nat) : lowEnd m < highEnd m :=
  Nat.mul_lt_mul_of_pos_right (by omega) (Nat.two_pow_pos _)

theorem lowEnd_strictMono : StrictMono lowEnd :=
  strictMono_nat_of_lt_succ fun m => highEnd_eq m ▸ lowEnd_lt_highEnd m

/-! ### Decimals in an interval -/

/-- A quarter of the smallest positive number is two to minus this. -/
def quarterBits : Nat := 1076

def quarters (value : ℚ) : ℚ := value * 2 ^ quarterBits

/-- The value lies in the interval of the number; the ends belong to it if the significand is
even. -/
structure Near (x : Number) (value : ℚ) : Prop where
  low_le : lowEnd x.magnitude ≤ quarters value
  le_high : quarters value ≤ highEnd x.magnitude
  inside : x.magnitude % 2 = 1 →
    lowEnd x.magnitude < quarters value ∧ quarters value < highEnd x.magnitude

theorem Near.magnitude_le {x y : Number} {value : ℚ} (hx : x.Near value) (hy : y.Near value) :
    x.magnitude ≤ y.magnitude := by
  by_contra hlt
  have hends : lowEnd (y.magnitude + 1) ≤ lowEnd x.magnitude :=
    lowEnd_strictMono.monotone (Nat.not_le.1 hlt)
  have hmeet : lowEnd x.magnitude ≤ lowEnd (y.magnitude + 1) := by
    rw [← highEnd_eq]
    exact_mod_cast hx.low_le.trans hy.le_high
  have hnext : x.magnitude = y.magnitude + 1 := lowEnd_strictMono.injective (by omega)
  -- One of the two neighbours is odd, and its interval does not hold the end between them.
  have hend : (lowEnd x.magnitude : ℚ) = highEnd y.magnitude := by rw [hnext, highEnd_eq]
  rcases Nat.mod_two_eq_zero_or_one x.magnitude with heven | hodd
  · have := (hy.inside (by omega)).2
    linarith [hx.low_le]
  · have := (hx.inside hodd).1
    linarith [hy.le_high]

/-- A value lies in the interval of one magnitude only. -/
theorem Near.magnitude_eq {x y : Number} {value : ℚ} (hx : x.Near value) (hy : y.Near value) :
    x.magnitude = y.magnitude :=
  Nat.le_antisymm (hx.magnitude_le hy) (hy.magnitude_le hx)

/-! ### Grids

A grid measures in units that are `10 ^ (-exponent).toNat` times smaller than a quarter. -/

section
variable (x : Number) (exponent : Int)

theorem low_onGrid :
    (x.onGrid exponent).low = lowEnd x.magnitude * 10 ^ (-exponent).toNat := by
  have h : (x.onGrid exponent).low =
      (4 * significandAt x.magnitude - reach (significandAt x.magnitude) (scaleAt x.magnitude)) *
        (10 ^ (-exponent).toNat <<< scaleAt x.magnitude) := rfl
  rw [h, Nat.shiftLeft_eq, lowEnd]
  ring

theorem high_onGrid :
    (x.onGrid exponent).high = highEnd x.magnitude * 10 ^ (-exponent).toNat := by
  have h : (x.onGrid exponent).high =
      (4 * significandAt x.magnitude + 2) *
        (10 ^ (-exponent).toNat <<< scaleAt x.magnitude) := rfl
  rw [h, Nat.shiftLeft_eq, highEnd]
  ring

theorem value_onGrid : (x.onGrid exponent).value =
    4 * significandAt x.magnitude * (10 ^ (-exponent).toNat * 2 ^ scaleAt x.magnitude) := by
  rw [← Nat.shiftLeft_eq]
  rfl

theorem step_onGrid : (x.onGrid exponent).step = 10 ^ exponent.toNat * 2 ^ quarterBits := by
  rw [← Nat.shiftLeft_eq]
  rfl

theorem closed_onGrid : (x.onGrid exponent).closed = decide (x.magnitude % 2 = 0) := by
  rw [← significandAt_parity]
  rfl

/-- A point of the grid, as the decimal that it is. -/
theorem point_onGrid (n : Nat) : ((n * (x.onGrid exponent).step : Nat) : ℚ) =
    quarters (Decimal.value ⟨n, exponent⟩) * 10 ^ (-exponent).toNat := by
  have hpow : (10 : ℚ) ^ exponent * 10 ^ (-exponent).toNat = 10 ^ exponent.toNat := by
    rw [← zpow_natCast, ← zpow_natCast, ← zpow_add₀ (by norm_num)]
    congr 1
    omega
  rw [step_onGrid, quarters, Decimal.value, Nat.cast_mul, Nat.cast_mul, Nat.cast_pow,
    Nat.cast_pow, Nat.cast_ofNat, Nat.cast_ofNat, ← hpow]
  ring

end

/-- A point of a grid in the interval is near the number. -/
theorem near_of_holds {x : Number} {exponent : Int} {n : Nat}
    (h : (x.onGrid exponent).holds n = true) : x.Near (Decimal.value ⟨n, exponent⟩) := by
  have hunit : (0 : ℚ) < 10 ^ (-exponent).toNat := by positivity
  have hpoint := point_onGrid x exponent n
  have hlow : ((x.onGrid exponent).low : ℚ) =
      lowEnd x.magnitude * 10 ^ (-exponent).toNat := by
    rw [low_onGrid, Nat.cast_mul, Nat.cast_pow, Nat.cast_ofNat]
  have hhigh : ((x.onGrid exponent).high : ℚ) =
      highEnd x.magnitude * 10 ^ (-exponent).toNat := by
    rw [high_onGrid, Nat.cast_mul, Nat.cast_pow, Nat.cast_ofNat]
  rw [OnGrid.holds, closed_onGrid] at h
  split at h
  · next heven =>
    rw [Bool.and_eq_true, decide_eq_true_eq, decide_eq_true_eq, ← Nat.cast_le (α := ℚ),
      ← Nat.cast_le (α := ℚ), hpoint, hlow, hhigh, mul_le_mul_iff_left₀ hunit,
      mul_le_mul_iff_left₀ hunit] at h
    have heven : x.magnitude % 2 = 0 := of_decide_eq_true heven
    exact ⟨h.1, h.2, fun hodd => by omega⟩
  · rw [Bool.and_eq_true, decide_eq_true_eq, decide_eq_true_eq, ← Nat.cast_lt (α := ℚ),
      ← Nat.cast_lt (α := ℚ), hpoint, hlow, hhigh, mul_lt_mul_iff_left₀ hunit,
      mul_lt_mul_iff_left₀ hunit] at h
    exact ⟨h.1.le, h.2.le, fun _ => h⟩

theorem OnGrid.holds_of_nearest? {g : OnGrid} {n : Nat} (h : g.nearest? = some n) :
    g.holds n = true := by
  simp only [OnGrid.nearest?] at h
  split at h
  · split at h <;> cases h <;> assumption
  · cases h
    assumption
  · cases h
    assumption
  · cases h

/-- A number lies inside its interval. -/
theorem value_onGrid_inside {x : Number} (h : x.magnitude ≠ 0) (exponent : Int) :
    (x.onGrid exponent).low < (x.onGrid exponent).value ∧
      (x.onGrid exponent).value < (x.onGrid exponent).high := by
  have hsignificand : 0 < significandAt x.magnitude :=
    Nat.pos_of_ne_zero fun hzero => h (significandAt_eq_zero hzero)
  have hreach := reach_pos (significandAt x.magnitude) (scaleAt x.magnitude)
  have hunit : 0 < 10 ^ (-exponent).toNat * 2 ^ scaleAt x.magnitude := by positivity
  constructor
  · rw [low_onGrid, value_onGrid, lowEnd, Nat.mul_assoc, Nat.mul_comm (2 ^ _)]
    exact Nat.mul_lt_mul_of_pos_right (by omega) hunit
  · rw [high_onGrid, value_onGrid, highEnd, Nat.mul_assoc (_ + _), Nat.mul_comm (2 ^ _)]
    exact Nat.mul_lt_mul_of_pos_right (by omega) hunit

/-- On its exact grid a number is a whole number of steps. -/
theorem step_dvd_value (x : Number) :
    (x.onGrid x.exactGrid).step ∣ (x.onGrid x.exactGrid).value := by
  have hexact : x.exactGrid = min ((scaleAt x.magnitude : Int) - 1074) 0 := rfl
  have hstep : (x.onGrid x.exactGrid).step = 2 ^ quarterBits := by
    rw [step_onGrid, Int.toNat_of_nonpos (by omega), Nat.pow_zero, Nat.one_mul]
  have hpow : 2 ^ quarterBits ∣ 2 ^ (2 + (-x.exactGrid).toNat + scaleAt x.magnitude) :=
    Nat.pow_dvd_pow 2 (by simp only [quarterBits]; omega)
  rw [hstep, value_onGrid]
  refine hpow.trans ⟨significandAt x.magnitude * 5 ^ (-x.exactGrid).toNat, ?_⟩
  rw [show 10 = 2 * 5 from rfl, Nat.mul_pow]
  ring

theorem holds_exactGrid {x : Number} (h : x.magnitude ≠ 0) :
    (x.onGrid x.exactGrid).holds (x.onGrid x.exactGrid).below = true := by
  have hbelow : (x.onGrid x.exactGrid).below * (x.onGrid x.exactGrid).step =
      (x.onGrid x.exactGrid).value := Nat.div_mul_cancel x.step_dvd_value
  obtain ⟨hlow, hhigh⟩ := value_onGrid_inside h x.exactGrid
  rw [OnGrid.holds, hbelow]
  simp [hlow, hhigh, hlow.le, hhigh.le]

theorem near_searchGrids {x : Number} (h : x.magnitude ≠ 0) (tries : Nat) (exponent : Int)
    (hlast : exponent - tries = x.exactGrid) : x.Near (x.searchGrids tries exponent).value := by
  induction tries generalizing exponent with
  | zero =>
    obtain rfl : exponent = x.exactGrid := by omega
    exact near_of_holds (holds_exactGrid h)
  | succ tries ih =>
    rw [searchGrids]
    split
    · next hnearest => exact near_of_holds (OnGrid.holds_of_nearest? hnearest)
    · exact ih (exponent - 1) (by omega)

/-- The shortest decimal of a number lies in its interval. -/
theorem near_shortest (x : Number) : x.Near x.shortest.value := by
  rw [shortest]
  split
  · next hzero =>
    have hmagnitude : x.magnitude = 0 := significandAt_eq_zero hzero
    have hvalue : quarters (Decimal.value ⟨0, 0⟩) = 0 := by simp [quarters, Decimal.value]
    have hlow : lowEnd x.magnitude = 0 := by rw [hmagnitude]; rfl
    exact ⟨by simp [hvalue, hlow], by simp [hvalue], by omega⟩
  · next hsignificand =>
    have hmagnitude : x.magnitude ≠ 0 := fun hzero => hsignificand (by
      rw [significand, hzero]
      rfl)
    have hexact : x.exactGrid ≤ 0 := Int.min_le_right _ _
    exact near_searchGrids hmagnitude _ _ (by omega)

end Number

end LoxFrontEnd
