import IntervalDump.Proofs.Decimal.Interval
/-!
# Rounding goes to the double that covers a number

A product or quotient of doubles is computed as a significand with an exponent and two bits on what
was cut off, and then rounded. This file shows that the result is the double that covers the exact
number (`roundWithAccuracy_eq`), and so for products and quotients (`mul_eq`, `div_eq`).
-/

namespace IntervalDump.Rounding

open Float.Model Float.Model.UnpackedFloat

/-! ## What was cut off -/

/-- The number is where the significand and the two bits behind it say it is. -/
def Approximates (em : ExtendedMantissa) (q : ℚ) : Prop :=
  match em.roundBit, em.stickyBit with
  | false, false => q = em.mantissa
  | false, true => em.mantissa < q ∧ q < em.mantissa + 1 / 2
  | true, false => q = em.mantissa + 1 / 2
  | true, true => em.mantissa + 1 / 2 < q ∧ q < em.mantissa + 1

namespace Approximates

variable {em : ExtendedMantissa} {q : ℚ}

/-- An integer is known exactly. -/
theorem exact (m : Nat) : Approximates (.ofMantissaAndAccuracy m .exact) m :=
  rfl

/-- The mantissa is not above the number. -/
theorem le (h : Approximates em q) : em.mantissa ≤ q := by
  obtain ⟨m, round, sticky⟩ := em
  cases round <;> cases sticky <;> simp only [Approximates] at h ⊢ <;> linarith

/-- The mantissa is the integer below the number. -/
theorem lt (h : Approximates em q) : q < em.mantissa + 1 := by
  obtain ⟨m, round, sticky⟩ := em
  cases round <;> cases sticky <;> simp only [Approximates] at h ⊢ <;> linarith

/-- Shifted by one bit, the mantissa is that of half the number. -/
theorem shiftRightOne (h : Approximates em q) : Approximates em.shiftRightOne (q / 2) := by
  obtain ⟨m, round, sticky⟩ := em
  have hm : (m : ℚ) = 2 * (m / 2 : Nat) + (m % 2 : Nat) := by
    exact_mod_cast (Nat.div_add_mod m 2).symm
  rcases Nat.mod_two_eq_zero_or_one m with hparity | hparity <;> rw [hparity] at hm <;>
    cases round <;> cases sticky <;>
    simp [Approximates, ExtendedMantissa.shiftRightOne, hparity] at h hm ⊢ <;>
    first
      | linarith
      | constructor <;> linarith

/-- Shifted by several bits, it is that of the number divided by the power of two. -/
theorem shiftRight (h : Approximates em q) (n : Nat) : Approximates (em >>> n) (q / 2 ^ n) := by
  induction n with
  | zero =>
    rw [pow_zero, div_one]
    exact h
  | succ n ih =>
    rw [pow_succ, ← div_div]
    exact ih.shiftRightOne

/-- The rounded significand is the whole number next to `q`, the even one of two. -/
theorem roundedMantissa_eq (h : Approximates em q) {m : Nat} (hlow : m - 1 / 2 ≤ q)
    (hhigh : q ≤ m + 1 / 2) (hodd_low : m % 2 = 1 → (m - 1 / 2 : ℚ) ≠ q)
    (hodd_high : m % 2 = 1 → q ≠ m + 1 / 2) : em.roundedMantissa = m := by
  have hle := h.le
  have hlt := h.lt
  -- Only `m` and the number below it can be what is left of `q`.
  have hbelow : em.mantissa < m + 1 := by
    have : (em.mantissa : ℚ) < m + 1 := by linarith
    exact_mod_cast this
  have habove : m < em.mantissa + 2 := by
    have : (m : ℚ) < em.mantissa + 2 := by linarith
    exact_mod_cast this
  obtain rfl | rfl : m = em.mantissa ∨ m = em.mantissa + 1 := by omega
  · obtain ⟨m, round, sticky⟩ := em
    cases round <;> cases sticky <;> simp only [Approximates] at h hodd_high hhigh
    · rfl
    · rfl
    · have heven : m % 2 = 0 := by
        by_contra hne
        exact hodd_high (by omega) h
      simp only [ExtendedMantissa.roundedMantissa, ExtendedMantissa.accuracy,
        Accuracy.roundToNearestEven, heven, Nat.add_zero]
    · exact absurd h.1 (by linarith)
  · push_cast at hlow hodd_low
    obtain ⟨m, round, sticky⟩ := em
    cases round <;> cases sticky <;> simp only [Approximates] at h hodd_low hlow
    · exact absurd h (by linarith)
    · exact absurd h.2 (by linarith)
    · have hodd : m % 2 = 1 := by
        by_contra hne
        exact hodd_low (by omega) (by linarith)
      simp only [ExtendedMantissa.roundedMantissa, ExtendedMantissa.accuracy,
        Accuracy.roundToNearestEven, hodd]
    · rfl

end Approximates

/-! ## Rounding once -/

/-- The exponent is the one at which 53 bits are left, or the smallest one. -/
theorem targetExponent_eq (m : Nat) (e : Int) :
    Format.binary64.targetExponent (totalExponent m e) = max (m.log2 + e - 52) (-1074) := by
  simp only [Format.targetExponent, totalExponent, Format.mantissaBits, Format.minExponent]
  omega

/-- Powers of two are positive. -/
theorem zpow_two_pos (e : Int) : (0 : ℚ) < 2 ^ e :=
  zpow_pos (by norm_num) e

/-- **Shifting to the exponent of the format keeps what is known of the number.** -/
theorem shiftToTargetExponent_eq {m : Nat} {e t : Int} {accuracy : Accuracy} {q : ℚ}
    (ht : Format.binary64.targetExponent (totalExponent m e) = t) (he : e ≤ t)
    (h : Approximates (.ofMantissaAndAccuracy m accuracy) (q / 2 ^ e)) :
    ∃ em, shiftToTargetExponent .binary64 m e accuracy = (em, t) ∧ Approximates em (q / 2 ^ t) := by
  have hcast : ((t - e).toNat : Int) = t - e := Int.toNat_of_nonneg (by omega)
  have hshift := h.shiftRight (t - e).toNat
  have hscale : q / 2 ^ e / 2 ^ (t - e).toNat = q / 2 ^ t := by
    rw [div_div, ← zpow_natCast, ← zpow_add₀ (by norm_num), hcast, add_sub_cancel]
  rw [hscale] at hshift
  refine ⟨_, ?_, hshift⟩
  simp only [shiftToTargetExponent, ht, shiftToExponent, hcast, add_sub_cancel]

/-- A significand of at most 53 digits stays. -/
theorem shiftToTargetExponent_double {d : Dyadic} (hd : d.IsDouble) :
    shiftToTargetExponent .binary64 d.significand d.exponent .exact =
      (⟨d.significand, false, false⟩, d.exponent) := by
  have hlog : d.significand.log2 < 53 := (Nat.log2_lt hd.pos.ne').mpr hd.lt
  have hshift : (max (d.significand.log2 + d.exponent - 52) (-1074) - d.exponent).toNat = 0 := by
    have := hd.exponent_ge
    omega
  simp only [shiftToTargetExponent, targetExponent_eq, shiftToExponent, hshift]
  exact Prod.ext rfl (Int.add_zero _)

/-- A significand that was rounded up to 54 digits loses one. -/
theorem shiftToTargetExponent_carry {e : Int} (he : -1074 ≤ e) :
    shiftToTargetExponent .binary64 (2 ^ 53) e .exact = (⟨2 ^ 52, false, false⟩, e + 1) := by
  have hshift : (max (((2 ^ 53 : Nat).log2 : Int) + e - 52) (-1074) - e).toNat = 1 := by
    rw [Nat.log2_two_pow]
    omega
  simp only [shiftToTargetExponent, targetExponent_eq, shiftToExponent, hshift]
  rfl

/-- What is known of the rest does not change the mantissa. -/
theorem mantissa_ofMantissaAndAccuracy (m : Nat) (accuracy : Accuracy) :
    (ExtendedMantissa.ofMantissaAndAccuracy m accuracy).mantissa = m := by
  cases accuracy with
  | exact => rfl
  | inexact ordering => cases ordering <;> rfl

section Round

variable {d : Dyadic} (hd : d.IsDouble) {q : ℚ} (hq : d.Covers q) {m : Nat} {e : Int}
  {accuracy : Accuracy} (h : Approximates (.ofMantissaAndAccuracy m accuracy) (q / 2 ^ e))
include h

/-- The number has as many binary digits as its significand. -/
theorem lt_of_approximates : q < 2 ^ (m.log2 + e + 1) := by
  have hlt := h.lt
  rw [mantissa_ofMantissaAndAccuracy, div_lt_iff₀ (zpow_two_pos e)] at hlt
  have hm : ((m + 1 : Nat) : ℚ) ≤ ((2 ^ (m.log2 + 1) : Nat) : ℚ) :=
    Nat.cast_le.mpr Nat.lt_log2_self
  push_cast at hm
  calc q < (m + 1) * 2 ^ e := hlt
    _ ≤ 2 ^ (m.log2 + 1) * 2 ^ e := by gcongr
    _ = 2 ^ (m.log2 + e + 1) := by
      rw [← zpow_natCast, ← zpow_add₀ (by norm_num)]
      congr 1
      push_cast
      ring

/-- A number has at least the bits of its mantissa. -/
theorem le_of_approximates (hm : m ≠ 0) : 2 ^ (m.log2 + e) ≤ q := by
  have hle := h.le
  rw [mantissa_ofMantissaAndAccuracy, le_div_iff₀ (zpow_two_pos e)] at hle
  have hlog : ((2 ^ m.log2 : Nat) : ℚ) ≤ (m : ℚ) := Nat.cast_le.mpr (Nat.log2_self_le hm)
  push_cast at hlog
  calc (2 : ℚ) ^ (m.log2 + e) = 2 ^ m.log2 * 2 ^ e := by
        rw [← zpow_natCast, ← zpow_add₀ (by norm_num)]
    _ ≤ m * 2 ^ e := by gcongr
    _ ≤ q := hle

include hd hq

/-- The number has no digit more than the double. -/
theorem log2_le (hm : m ≠ 0) : (m.log2 + e - 52 : Int) ≤ d.exponent := by
  have hlt : (2 : ℚ) ^ (m.log2 + e) < 2 ^ (d.exponent + 53) :=
    (le_of_approximates h hm).trans_lt (hq.lt_two_zpow hd)
  rw [zpow_lt_zpow_iff_right₀ (by norm_num)] at hlt
  omega

/-- The digits that are kept end where those of the double end, or one digit behind them: then the
number is below a power of two, which it is rounded to. -/
theorem targetExponent_cases (he : e ≤ Format.binary64.targetExponent (totalExponent m e)) :
    Format.binary64.targetExponent (totalExponent m e) = d.exponent ∨
      Format.binary64.targetExponent (totalExponent m e) + 1 = d.exponent ∧
        d.narrowBelow = true ∧ q < d.significand * 2 ^ d.exponent := by
  rw [targetExponent_eq] at he ⊢
  have hge := hd.exponent_ge
  have htop : (m.log2 + e - 52 : Int) ≤ d.exponent := by
    by_cases hm : m = 0
    · subst hm
      rw [Nat.log2_zero] at he ⊢
      omega
    · exact log2_le hd hq h hm
  by_cases hbelow : max (m.log2 + e - 52 : Int) (-1074) < d.exponent
  · right
    have hupper : q < 2 ^ 52 * 2 ^ d.exponent := by
      calc q < 2 ^ (m.log2 + e + 1) := lt_of_approximates h
        _ ≤ 2 ^ (d.exponent + 52) := zpow_le_zpow_right₀ (by norm_num) (by omega)
        _ = 2 ^ 52 * 2 ^ d.exponent := by
          rw [zpow_add₀ (by norm_num), mul_comm]
          rfl
    have hsignificand := hq.significand_eq hd (by omega) hupper
    have hlower : (2 : ℚ) ^ (d.exponent + 51) < 2 ^ (m.log2 + e + 1) :=
      (hq.two_zpow_le hsignificand).trans_lt (lt_of_approximates h)
    rw [zpow_lt_zpow_iff_right₀ (by norm_num)] at hlower
    refine ⟨by omega, hd.narrowBelow_iff.mpr ⟨hsignificand, by omega⟩, ?_⟩
    rw [hsignificand]
    exact_mod_cast hupper
  · left
    omega

omit h in
/-- The number is rounded to the significand of the double, or to a power of two that has one digit
too many for it. -/
theorem roundedMantissa_cases {em : ExtendedMantissa} {t : Int} (hem : Approximates em (q / 2 ^ t))
    (ht : t = d.exponent ∨
      t + 1 = d.exponent ∧ d.narrowBelow = true ∧ q < d.significand * 2 ^ d.exponent) :
    t = d.exponent ∧ em.roundedMantissa = d.significand ∨
      t + 1 = d.exponent ∧ d.significand = 2 ^ 52 ∧ em.roundedMantissa = 2 ^ 53 := by
  have hpos := zpow_two_pos t
  rcases ht with rfl | ⟨ht, hnarrow, hbelow⟩
  · refine .inl ⟨rfl, hem.roundedMantissa_eq ?_ ?_ ?_ ?_⟩
    · have hhalf := d.halfBelow_le
      rw [le_div_iff₀ hpos]
      exact le_trans (by gcongr) hq.low
    · rw [div_le_iff₀ hpos]
      exact hq.high
    · intro hodd heq
      rw [eq_div_iff hpos.ne', ← hd.halfBelow_of_odd hodd] at heq
      exact hq.odd_low hodd heq
    · intro hodd heq
      exact hq.odd_high hodd ((div_eq_iff hpos.ne').mp heq)
  · obtain ⟨hsignificand, -⟩ := hd.narrowBelow_iff.mp hnarrow
    have hlow := hq.low
    rw [hsignificand, ← ht, zpow_add_one₀ (by norm_num)] at hlow hbelow
    rw [Dyadic.halfBelow, if_pos hnarrow] at hlow
    push_cast at hlow hbelow
    refine .inr ⟨ht, hsignificand, hem.roundedMantissa_eq ?_ ?_ ?_ ?_⟩
    · rw [le_div_iff₀ hpos]
      push_cast
      linarith
    · rw [div_le_iff₀ hpos]
      push_cast
      linarith
    · exact fun hodd => absurd hodd (by decide)
    · exact fun hodd => absurd hodd (by decide)

/-- **Rounding goes to the double that covers the number.** -/
theorem roundWithAccuracy_eq (he : e ≤ Format.binary64.targetExponent (totalExponent m e))
    (sign : Sign) : roundWithAccuracy .binary64 sign m e accuracy =
      .finite sign d.significand d.exponent hd.pos := by
  obtain ⟨em, hshift, hem⟩ := shiftToTargetExponent_eq rfl he h
  rcases roundedMantissa_cases hd hq hem (targetExponent_cases hd hq h he) with
    ⟨ht, hrounded⟩ | ⟨ht, hsignificand, hrounded⟩
  · rw [ht] at hshift
    have hne : d.significand ≠ 0 := hd.pos.ne'
    simp only [roundWithAccuracy, hshift, hrounded, shiftToTargetExponent_double hd, hne,
      dite_false]
  · have hge : -1074 ≤ Format.binary64.targetExponent (totalExponent m e) := by
      rw [targetExponent_eq]
      exact le_max_right _ _
    simp only [roundWithAccuracy, hshift, hrounded, shiftToTargetExponent_carry hge, ht]
    simp only [hsignificand]
    rfl

end Round

/-! ## Products and quotients -/

section Arithmetic

variable {d : Dyadic} (hd : d.IsDouble) {m₁ m₂ : Nat} {e₁ e₂ : Int}
include hd

/-- A product that has all digits of a double at once. -/
theorem mul_eq (h₁ : 0 < m₁) (h₂ : 0 < m₂) (hq : d.Covers (m₁ * 2 ^ e₁ * (m₂ * 2 ^ e₂)))
    (hdigits : 2 ^ 52 ≤ m₁ * m₂) (s₁ s₂ : Sign) :
    mul .binary64 (.finite s₁ m₁ e₁ h₁) (.finite s₂ m₂ e₂ h₂) =
      .finite (s₁ * s₂) d.significand d.exponent hd.pos := by
  have hvalue : (m₁ * 2 ^ e₁ * (m₂ * 2 ^ e₂) : ℚ) / 2 ^ (e₁ + e₂) = (m₁ * m₂ : Nat) := by
    rw [zpow_add₀ (by norm_num)]
    have := zpow_two_pos e₁
    have := zpow_two_pos e₂
    push_cast
    field_simp
  have h := Approximates.exact (m₁ * m₂)
  rw [← hvalue] at h
  refine roundWithAccuracy_eq hd hq h ?_ (s₁ * s₂)
  have hlog : 52 ≤ (m₁ * m₂).log2 := (Nat.le_log2 (by omega)).mpr hdigits
  rw [targetExponent_eq]
  omega

omit hd in
/-- A quotient of whole numbers and what its remainder says of the rest. -/
theorem approximates_quotient (num : Nat) {den : Nat} (hden : 0 < den) :
    Approximates (.ofMantissaAndAccuracy (num / den) (accuracyOfFraction (num % den) den))
      (num / den) := by
  have hpos : (0 : ℚ) < den := by exact_mod_cast hden
  have hvalue : (num / den : ℚ) = (num / den : Nat) + (num % den : Nat) / den := by
    have hsum : (num : ℚ) = den * (num / den : Nat) + (num % den : Nat) := by
      exact_mod_cast (Nat.div_add_mod num den).symm
    rw [div_eq_iff hpos.ne', add_mul, div_mul_cancel₀ _ hpos.ne', hsum]
    ring
  have hlt : num % den < den := Nat.mod_lt num hden
  rw [hvalue]
  generalize num / den = quotient, num % den = rest at hlt
  have hbelow : (rest / den : ℚ) < 1 := by
    rw [div_lt_one hpos]
    exact_mod_cast hlt
  unfold accuracyOfFraction
  split_ifs with hrest
  · subst hrest
    simp [ExtendedMantissa.ofMantissaAndAccuracy, Approximates]
  have habove : (0 : ℚ) < rest / den := div_pos (by exact_mod_cast Nat.pos_of_ne_zero hrest) hpos
  -- the rest says on which side of a half the fraction is, and this is all that is kept of it
  rcases hcompare : compare (2 * rest) den with _ | _ | _
  · rw [Nat.compare_eq_lt] at hcompare
    have hhalf : (rest / den : ℚ) < 1 / 2 := by
      rw [div_lt_iff₀ hpos]
      have : (2 * rest : ℚ) < den := by exact_mod_cast hcompare
      linarith
    exact ⟨by simpa [ExtendedMantissa.ofMantissaAndAccuracy] using habove,
      by simpa [ExtendedMantissa.ofMantissaAndAccuracy] using hhalf⟩
  · rw [Nat.compare_eq_eq] at hcompare
    have hhalf : (rest / den : ℚ) = 1 / 2 := by
      rw [div_eq_iff hpos.ne']
      have : (2 * rest : ℚ) = den := by exact_mod_cast hcompare
      linarith
    simp only [ExtendedMantissa.ofMantissaAndAccuracy, Approximates, hhalf]
  · rw [Nat.compare_eq_gt] at hcompare
    have hhalf : (1 / 2 : ℚ) < rest / den := by
      rw [lt_div_iff₀ hpos]
      have : (den : ℚ) < 2 * rest := by exact_mod_cast hcompare
      linarith
    exact ⟨by simpa [ExtendedMantissa.ofMantissaAndAccuracy] using hhalf,
      by simpa [ExtendedMantissa.ofMantissaAndAccuracy] using hbelow⟩

omit hd in
/-- A quotient has bits enough if the dividend was shifted far enough. -/
theorem log2_quotient (h₁ : 0 < m₁) (h₂ : 0 < m₂) {shift : Nat}
    (hshift : m₂.log2 + 53 ≤ m₁.log2 + shift) : 52 ≤ ((m₁ <<< shift) / m₂).log2 := by
  have hdigits : 2 ^ 52 ≤ (m₁ <<< shift) / m₂ := by
    rw [Nat.le_div_iff_mul_le h₂]
    calc 2 ^ 52 * m₂ ≤ 2 ^ 52 * 2 ^ (m₂.log2 + 1) := by
          have := Nat.lt_log2_self (n := m₂)
          gcongr
      _ = 2 ^ (m₂.log2 + 53) := by ring
      _ ≤ 2 ^ (m₁.log2 + shift) := Nat.pow_le_pow_right (by decide) hshift
      _ = 2 ^ m₁.log2 * 2 ^ shift := pow_add ..
      _ ≤ m₁ * 2 ^ shift := by
        have := Nat.log2_self_le h₁.ne'
        gcongr
      _ = m₁ <<< shift := (Nat.shiftLeft_eq ..).symm
  exact (Nat.le_log2 (by omega)).mpr hdigits

/-- A quotient, whatever its terms are: the division goes on until there are enough digits. -/
theorem div_eq (h₁ : 0 < m₁) (h₂ : 0 < m₂) (hq : d.Covers (m₁ * 2 ^ e₁ / (m₂ * 2 ^ e₂)))
    (s₁ s₂ : Sign) :
    div .binary64 (.finite s₁ m₁ e₁ h₁) (.finite s₂ m₂ e₂ h₂) =
      .finite (s₁ / s₂) d.significand d.exponent hd.pos := by
  set target := min (e₁ - e₂)
    (Format.binary64.targetExponent (totalExponent m₁ e₁ - totalExponent m₂ e₂)) with htarget
  have hcast : ((e₁ - e₂ - target).toNat : Int) = e₁ - e₂ - target :=
    Int.toNat_of_nonneg (by omega)
  have h := approximates_quotient (m₁ <<< (e₁ - e₂ - target).toNat) h₂
  have hvalue : ((m₁ <<< (e₁ - e₂ - target).toNat : Nat) / m₂ : ℚ) =
      m₁ * 2 ^ e₁ / (m₂ * 2 ^ e₂) / 2 ^ target := by
    have hpower : (2 : ℚ) ^ (e₁ - e₂ - target).toNat = 2 ^ e₁ / 2 ^ e₂ / 2 ^ target := by
      rw [← zpow_natCast, hcast, zpow_sub₀ (by norm_num), zpow_sub₀ (by norm_num)]
    have := zpow_two_pos e₂
    have := zpow_two_pos target
    rw [Nat.shiftLeft_eq]
    push_cast
    rw [hpower]
    field_simp
  rw [hvalue] at h
  refine roundWithAccuracy_eq hd hq h ?_ (s₁ / s₂)
  rw [targetExponent_eq]
  by_cases hsmallest : target ≤ -1074
  · omega
  have hlog : 52 ≤ ((m₁ <<< (e₁ - e₂ - target).toNat) / m₂).log2 := by
    apply log2_quotient h₁ h₂
    simp only [Format.targetExponent, totalExponent, Format.mantissaBits, Format.minExponent]
      at htarget
    omega
  omega

end Arithmetic

end IntervalDump.Rounding
