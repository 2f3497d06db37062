import IntervalDump.Proofs.Decimal.Digits
import IntervalDump.Proofs.Decimal.Interval
/-!
# The shortest digits round to the double

Whatever grid the search for the shortest digits stops on, the decimal that it takes is covered by
the double (`exists_shortest`). On all grids but the last one this is what was looked for
(`covers_of_reads`); on the last one the multiples are so near to each other that the one below the
double is covered without looking.
-/

namespace IntervalDump

open Decimal (ofDigits width)

/-! ## The value of digits -/

namespace Digits

/-- The decimal that the digits spell. -/
def value (d : Digits) : ℚ :=
  ofDigits d.digits * 10 ^ (d.exponent - d.digits.length + 1)

/-- There is a first digit, and it is not zero. -/
structure IsNormal (d : Digits) : Prop where
  digits_ne : d.digits ≠ []
  head?_ne : d.digits.head? ≠ some '0'
  isDigit : ∀ c ∈ d.digits, Decimal.isDigit c = true

end Digits

namespace Dyadic

/-- Only zeros at the end are left out. -/
theorem exists_toDigits_eq (c : Nat) (place : Int) :
    ∃ n, Nat.toDigits 10 c = (digitsOf c place).digits ++ List.replicate n '0' := by
  set zeros := (Nat.toDigits 10 c).reverse.takeWhile (· == '0') with hzeros
  have hreplicate : zeros = List.replicate zeros.length '0' := by
    apply List.eq_replicate_of_mem
    intro d hd
    have hall : zeros.all (· == '0') = true := List.all_takeWhile
    simpa using List.all_eq_true.mp hall d hd
  refine ⟨zeros.length, ?_⟩
  rw [← List.reverse_replicate, ← hreplicate, digitsOf, ← List.reverse_append, hzeros,
    List.takeWhile_append_dropWhile, List.reverse_reverse]

/-- The value of digits that end at a place. -/
theorem value_digitsOf (c : Nat) (place : Int) : (digitsOf c place).value = c * 10 ^ place := by
  obtain ⟨n, hn⟩ := exists_toDigits_eq c place
  have hc : c = 10 ^ n * ofDigits (digitsOf c place).digits := by
    rw [← Decimal.ofDigits_append_zeros, ← hn, Decimal.ofDigits_toDigits]
  have hlength : ((Nat.toDigits 10 c).length : Int) = (digitsOf c place).digits.length + n := by
    rw [hn, List.length_append, List.length_replicate]
    push_cast
    rfl
  have hexponent :
      (digitsOf c place).exponent - (digitsOf c place).digits.length + 1 = n + place := by
    have : (digitsOf c place).exponent = place + (Nat.toDigits 10 c).length - 1 := rfl
    omega
  rw [Digits.value, hexponent, zpow_add₀ (by norm_num), zpow_natCast]
  conv_rhs => rw [hc]
  push_cast
  ring

/-- The digits of a positive number begin with one that is not zero. -/
theorem isNormal_digitsOf {c : Nat} (hc : 0 < c) (place : Int) : (digitsOf c place).IsNormal := by
  obtain ⟨n, hn⟩ := exists_toDigits_eq c place
  have hhead := Decimal.head?_toDigits hc
  have hne : (digitsOf c place).digits ≠ [] := by
    intro h
    rw [h, List.nil_append] at hn
    cases n with
    | zero => exact Nat.toDigits_ne_nil hn
    | succ n => exact hhead (by rw [hn]; rfl)
  refine ⟨hne, ?_, ?_⟩
  · obtain ⟨first, rest, hdigits⟩ := List.exists_cons_of_ne_nil hne
    rw [hn, hdigits] at hhead
    rw [hdigits]
    exact hhead
  · intro d hd
    apply Decimal.isDigit_of_mem_toDigits (n := c)
    rw [hn]
    exact List.mem_append_left _ hd

/-! ## Grids -/

/-- A power whose exponent may be negative is a quotient of two others. -/
theorem zpow_eq_div {a : ℚ} (ha : a ≠ 0) (k : Int) : a ^ k = a ^ k.toNat / a ^ (-k).toNat := by
  rw [← zpow_natCast, ← zpow_natCast, ← zpow_sub₀ ha]
  congr 1
  omega

/-- The terms of the quarter, in the same scale. -/
theorem exists_scale (d : Dyadic) (place : Int) : ∃ k : ℚ, 0 < k ∧
    (d.quarter place).1 = k * 2 ^ (d.exponent - 2) ∧ (d.quarter place).2 = k * 10 ^ place := by
  refine ⟨2 ^ (-(d.exponent - 2)).toNat * 10 ^ (-place).toNat, by positivity, ?_, ?_⟩
  · rw [zpow_eq_div (a := 2) (by norm_num)]
    show ((2 ^ (d.exponent - 2).toNat * 10 ^ (-place).toNat : Nat) : ℚ) = _
    push_cast
    field_simp
  · rw [zpow_eq_div (a := 10) (by norm_num)]
    show ((2 ^ (-(d.exponent - 2)).toNat * 10 ^ place.toNat : Nat) : ℚ) = _
    push_cast
    field_simp

/-- Comparing with the grid is comparing rationals, from below. -/
theorem le_grid_iff (d : Dyadic) (place : Int) (a c : Nat) :
    a * (d.quarter place).1 ≤ c * (d.quarter place).2 ↔
      a * (2 : ℚ) ^ (d.exponent - 2) ≤ c * 10 ^ place := by
  obtain ⟨k, hk, hnum, hden⟩ := d.exists_scale place
  rw [← @Nat.cast_le ℚ, Nat.cast_mul, Nat.cast_mul, hnum, hden, mul_left_comm,
    mul_left_comm _ k, mul_le_mul_iff_right₀ hk]

/-- Comparing with the grid is comparing rationals, from above. -/
theorem grid_le_iff (d : Dyadic) (place : Int) (a c : Nat) :
    c * (d.quarter place).2 ≤ a * (d.quarter place).1 ↔
      c * (10 : ℚ) ^ place ≤ a * 2 ^ (d.exponent - 2) := by
  obtain ⟨k, hk, hnum, hden⟩ := d.exists_scale place
  rw [← @Nat.cast_le ℚ, Nat.cast_mul, Nat.cast_mul, hnum, hden, mul_left_comm,
    mul_left_comm _ k, mul_le_mul_iff_right₀ hk]

/-! ## What is covered -/

/-- A unit is four quarters. -/
theorem zpow_quarter (e : Int) : (2 : ℚ) ^ e = 4 * 2 ^ (e - 2) := by
  rw [zpow_sub₀ (by norm_num)]
  norm_num
  ring

/-- The end of the interval below the double, in quarters. -/
theorem low_eq {d : Dyadic} (hpos : 0 < d.significand) :
    (d.significand - d.halfBelow) * 2 ^ d.exponent =
      (4 * d.significand - (if d.narrowBelow then 1 else 2) : Nat) * 2 ^ (d.exponent - 2) := by
  rw [zpow_quarter, halfBelow]
  split
  · rw [Nat.cast_sub (by omega)]
    push_cast
    ring
  · rw [Nat.cast_sub (by omega)]
    push_cast
    ring

/-- The upper end of what a number covers, in quarters. -/
theorem high_eq (d : Dyadic) : (d.significand + 1 / 2) * (2 : ℚ) ^ d.exponent =
    (4 * d.significand + 2 : Nat) * 2 ^ (d.exponent - 2) := by
  rw [zpow_quarter]
  push_cast
  ring

/-- **Digits that are read as a number are covered by it.** -/
theorem covers_of_reads {d : Dyadic} (hpos : 0 < d.significand) {c : Nat} {place : Int}
    (h : d.reads c place = true) : d.Covers (c * 10 ^ place) := by
  simp only [reads] at h
  split at h
  · next heven =>
    rw [Bool.and_eq_true, decide_eq_true_iff, decide_eq_true_iff, le_grid_iff, grid_le_iff,
      ← low_eq hpos, ← high_eq] at h
    exact ⟨h.1, h.2, fun hodd => by omega, fun hodd => by omega⟩
  · rw [Bool.and_eq_true, decide_eq_true_iff, decide_eq_true_iff, ← not_le, ← not_le, le_grid_iff,
      grid_le_iff, ← low_eq hpos, ← high_eq, not_le, not_le] at h
    exact ⟨h.1.le, h.2.le, fun _ => h.1.ne, fun _ => h.2.ne⟩

/-! ## The search -/

/-- The double has a digit at its magnitude. -/
theorem pow_magnitude_le {d : Dyadic} (hpos : 0 < d.significand) :
    (10 : ℚ) ^ d.magnitude ≤ d.significand * 2 ^ d.exponent := by
  set num := d.significand * 2 ^ d.exponent.toNat with hnum
  set den := 2 ^ (-d.exponent).toNat with hden
  set guess : Int := width num - width den with hguess
  have hden_pos : (0 : ℚ) < den := by
    have : 0 < den := Nat.pow_pos (by decide)
    exact_mod_cast this
  have hvalue : (d.significand : ℚ) * 2 ^ d.exponent = num / den := by
    rw [zpow_eq_div (by norm_num), hnum, hden]
    push_cast
    ring
  have hmagnitude : d.magnitude = if num * 10 ^ (-guess).toNat < den * 10 ^ guess.toNat
      then guess - 1 else guess := rfl
  rw [hvalue, le_div_iff₀ hden_pos, hmagnitude]
  split
  · have hnum_pos : 0 < num := Nat.mul_pos hpos (Nat.pow_pos (by decide))
    have hlow : ((10 ^ (width num - 1) : Nat) : ℚ) ≤ num :=
      Nat.cast_le.mpr (Decimal.pow_width_le hnum_pos)
    have hhigh : (den : ℚ) ≤ ((10 ^ width den : Nat) : ℚ) :=
      Nat.cast_le.mpr (Decimal.lt_pow_width den).le
    have hwidth := Decimal.width_pos num
    push_cast at hlow hhigh
    calc (10 : ℚ) ^ (guess - 1) * den ≤ 10 ^ (guess - 1) * 10 ^ width den := by gcongr
      _ = 10 ^ (width num - 1) := by
        rw [← zpow_natCast, ← zpow_natCast, ← zpow_add₀ (by norm_num)]
        congr 1
        omega
      _ ≤ num := hlow
  · next hge =>
    have hge : ((den * 10 ^ guess.toNat : Nat) : ℚ) ≤ (num * 10 ^ (-guess).toNat : Nat) :=
      Nat.cast_le.mpr (Nat.le_of_not_lt hge)
    rw [zpow_eq_div (by norm_num), div_mul_eq_mul_div, div_le_iff₀ (by positivity), mul_comm]
    exact_mod_cast hge

/-- Behind seventeen digits the grid is finer than the intervals of doubles. -/
theorem grid_lt {d : Dyadic} (hd : d.IsDouble) {place : Int} (hplace : place ≤ d.magnitude - 17) :
    (10 : ℚ) ^ place < 1 / 4 * 2 ^ d.exponent := by
  have hsignificand : (d.significand : ℚ) ≤ 2 ^ 53 := by exact_mod_cast hd.lt.le
  calc (10 : ℚ) ^ place ≤ 10 ^ (d.magnitude - 17) := zpow_le_zpow_right₀ (by norm_num) hplace
    _ = 10 ^ d.magnitude / 10 ^ 17 := by
      rw [zpow_sub₀ (by norm_num)]
      rfl
    _ ≤ d.significand * 2 ^ d.exponent / 10 ^ 17 := by
      have := pow_magnitude_le hd.pos
      gcongr
    _ ≤ 2 ^ 53 * 2 ^ d.exponent / 10 ^ 17 := by gcongr
    _ < 1 / 4 * 2 ^ d.exponent := by
      have : (0 : ℚ) < 2 ^ d.exponent := by positivity
      linarith

/-- On so fine a grid, the decimal below the double is covered. -/
theorem covers_below {d : Dyadic} (hd : d.IsDouble) {place : Int}
    (hplace : place ≤ d.magnitude - 17) :
    d.Covers ((4 * d.significand * (d.quarter place).1 / (d.quarter place).2 : Nat) *
      10 ^ place) := by
  set below := 4 * d.significand * (d.quarter place).1 / (d.quarter place).2 with hbelow
  have hden : 0 < (d.quarter place).2 :=
    Nat.mul_pos (Nat.pow_pos (by decide)) (Nat.pow_pos (by decide))
  have hle := (grid_le_iff d place (4 * d.significand) below).mp (Nat.div_mul_le_self _ _)
  have hlt : ¬ (below + 1) * (d.quarter place).2 ≤ 4 * d.significand * (d.quarter place).1 :=
    Nat.not_le.mpr ((Nat.div_lt_iff_lt_mul hden).mp (Nat.lt_succ_self _))
  have hvalue :
      (4 * d.significand : ℚ) * 2 ^ (d.exponent - 2) = d.significand * 2 ^ d.exponent := by
    rw [zpow_quarter d.exponent]
    ring
  rw [grid_le_iff, not_le] at hlt
  push_cast at hle hlt
  rw [hvalue] at hle hlt
  have hunit : (0 : ℚ) < 2 ^ d.exponent := by positivity
  have hgrid := grid_lt hd hplace
  have hhalf : 1 / 4 * (2 : ℚ) ^ d.exponent ≤ d.halfBelow * 2 ^ d.exponent := by
    have := d.quarter_le_halfBelow
    gcongr
  have hlow : (d.significand - d.halfBelow) * 2 ^ d.exponent < below * 10 ^ place := by
    linarith
  have hhigh : below * (10 : ℚ) ^ place < (d.significand + 1 / 2) * 2 ^ d.exponent := by
    linarith
  exact ⟨hlow.le, hhigh.le, fun _ => hlow.ne, fun _ => hhigh.ne⟩

/-- The nearest digits on a grid are covered if there are any. -/
theorem covers_of_nearestOn? {tie : Tie} {d : Dyadic} (hpos : 0 < d.significand) {place : Int}
    {c : Nat} (h : d.nearestOn? tie place = some c) : d.Covers (c * 10 ^ place) := by
  apply covers_of_reads hpos
  simp only [nearestOn?] at h
  split at h
  · contradiction
  · next hbelow _ => exact Option.some.inj h ▸ hbelow
  · next habove => exact Option.some.inj h ▸ habove
  · next hbelow habove =>
    split at h
    · exact Option.some.inj h ▸ hbelow
    · exact Option.some.inj h ▸ habove
    · exact Option.some.inj h ▸ habove
    · rw [← Option.some.inj h]
      split
      · exact hbelow
      · exact habove

/-- **The search ends with digits that are covered**, at the latest where the grid is fine enough.
-/
theorem exists_search (tie : Tie) {d : Dyadic} (hd : d.IsDouble) (place : Int) (fuel : Nat)
    (hplace : place - fuel ≤ d.magnitude - 17) :
    ∃ (c : Nat) (place' : Int), d.search tie place fuel = digitsOf c place' ∧
      d.Covers (c * 10 ^ place') := by
  -- each step goes one place down; where the grid is fine enough, a point of it is covered
  induction fuel generalizing place with
  | zero => exact ⟨_, place, rfl, covers_below hd (by simpa using hplace)⟩
  | succ fuel ih =>
    rw [search]
    split
    · next c hc => exact ⟨c, place, rfl, covers_of_nearestOn? hd.pos hc⟩
    · exact ih (place - 1) (by omega)

/-- **The shortest digits are those of a decimal that rounds to the double.** -/
theorem exists_shortest (tie : Tie) {d : Dyadic} (hd : d.IsDouble) :
    (d.shortest tie).IsNormal ∧ d.Covers (d.shortest tie).value := by
  obtain ⟨c, place, hsearch, hcovers⟩ := exists_search tie hd d.magnitude 17 le_rfl
  rw [shortest, hsearch, value_digitsOf]
  exact ⟨isNormal_digitsOf (hcovers.digits_pos hd) place, hcovers⟩

end Dyadic

end IntervalDump
