import Mathlib
import IntervalDump.Decimal.Shortest
/-!
# The reals that round to a double

`Dyadic.Covers` says of a number that rounding takes it to a given double: it lies between the
middles to the two neighbours. What follows without any arithmetic on doubles is collected here.
-/

namespace IntervalDump.Dyadic

/-- What holds of the positive finite doubles. -/
structure IsDouble (d : Dyadic) : Prop where
  pos : 0 < d.significand
  lt : d.significand < 2 ^ 53
  exponent_ge : -1074 ≤ d.exponent
  exponent_le : d.exponent ≤ 971
  /-- Only doubles with the smallest exponent have less than 53 digits. -/
  normal : d.exponent ≠ -1074 → 2 ^ 52 ≤ d.significand
  narrowBelow_iff : d.narrowBelow = true ↔ d.significand = 2 ^ 52 ∧ d.exponent ≠ -1074

/-- Half the way to the next smaller double, in units of the significand. -/
def halfBelow (d : Dyadic) : ℚ :=
  if d.narrowBelow then 1 / 4 else 1 / 2

/-- The number is between the middles to the two neighbours of `d`, or on one of them if the
significand is even. -/
structure Covers (d : Dyadic) (q : ℚ) : Prop where
  low : (d.significand - d.halfBelow) * 2 ^ d.exponent ≤ q
  high : q ≤ (d.significand + 1 / 2) * 2 ^ d.exponent
  odd_low : d.significand % 2 = 1 → (d.significand - d.halfBelow) * 2 ^ d.exponent ≠ q
  odd_high : d.significand % 2 = 1 → q ≠ (d.significand + 1 / 2) * 2 ^ d.exponent

/-- Below a number, half of the gap is at most half a unit. -/
theorem halfBelow_le (d : Dyadic) : d.halfBelow ≤ 1 / 2 := by
  unfold halfBelow
  split <;> norm_num

/-- Below a number, half of the gap is at least a quarter of a unit, which it is at a power of two.
-/
theorem quarter_le_halfBelow (d : Dyadic) : 1 / 4 ≤ d.halfBelow := by
  unfold halfBelow
  split <;> norm_num

/-- Only positive numbers are covered. -/
theorem Covers.pos {d : Dyadic} {q : ℚ} (h : d.Covers q) (hd : d.IsDouble) : 0 < q := by
  have hone : (1 : ℚ) ≤ d.significand := by exact_mod_cast hd.pos
  have hbelow : 0 < d.significand - d.halfBelow := by linarith [d.halfBelow_le]
  exact lt_of_lt_of_le (by positivity) h.low

/-- Digits that are covered by a number of the format are not zero. -/
theorem Covers.digits_pos {d : Dyadic} {n : Nat} {e : Int} (h : d.Covers (n * 10 ^ e))
    (hd : d.IsDouble) : 0 < n := by
  apply Nat.pos_of_ne_zero
  rintro rfl
  have hpos := h.pos hd
  rw [Nat.cast_zero, zero_mul] at hpos
  exact lt_irrefl _ hpos

/-- No number is covered that has a digit more than the double. -/
theorem Covers.lt_two_zpow {d : Dyadic} {q : ℚ} (h : d.Covers q) (hd : d.IsDouble) :
    q < 2 ^ (d.exponent + 53) := by
  have hsignificand : (d.significand : ℚ) + 1 ≤ 2 ^ 53 := by exact_mod_cast hd.lt
  calc q ≤ (d.significand + 1 / 2) * 2 ^ d.exponent := h.high
    _ < 2 ^ 53 * 2 ^ d.exponent := by
      gcongr
      linarith
    _ = 2 ^ (d.exponent + 53) := by
      rw [zpow_add₀ (by norm_num), mul_comm]
      rfl

/-- A number below all significands of 53 digits is covered only by the smallest of them. -/
theorem Covers.significand_eq {d : Dyadic} {q : ℚ} (h : d.Covers q) (hd : d.IsDouble)
    (hne : d.exponent ≠ -1074) (hlt : q < 2 ^ 52 * 2 ^ d.exponent) : d.significand = 2 ^ 52 := by
  have hlow := h.low.trans_lt hlt
  rw [mul_lt_mul_iff_left₀ (by positivity)] at hlow
  have hlt : (d.significand : ℚ) < 2 ^ 52 + 1 := by
    linarith [d.halfBelow_le]
  have hlt : d.significand < 2 ^ 52 + 1 := by exact_mod_cast hlt
  have := hd.normal hne
  omega

/-- What a power of two covers has at most one digit less than it. -/
theorem Covers.two_zpow_le {d : Dyadic} {q : ℚ} (h : d.Covers q) (hd : d.significand = 2 ^ 52) :
    2 ^ (d.exponent + 51) ≤ q := by
  calc (2 : ℚ) ^ (d.exponent + 51) = 2 ^ 51 * 2 ^ d.exponent := by
        rw [zpow_add₀ (by norm_num), mul_comm]
        rfl
    _ ≤ (d.significand - d.halfBelow) * 2 ^ d.exponent := by
      have := d.halfBelow_le
      rw [hd]
      gcongr
      push_cast
      linarith
    _ ≤ q := h.low

/-- An odd significand is no power of two, and so the gap below is that above. -/
theorem IsDouble.halfBelow_of_odd {d : Dyadic} (hd : d.IsDouble) (h : d.significand % 2 = 1) :
    d.halfBelow = 1 / 2 := by
  rw [halfBelow, if_neg]
  intro hnarrow
  rw [(hd.narrowBelow_iff.mp hnarrow).1] at h
  contradiction

end IntervalDump.Dyadic
