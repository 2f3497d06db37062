import IntervalDump.Decimal.Numeral
import IntervalDump.Proofs.Decimal.Bits
import IntervalDump.Proofs.Decimal.Digits
import IntervalDump.Proofs.Decimal.Rounding
import IntervalDump.Proofs.Decimal.Shortest
/-!
# Numerals are read as the nearest double

A numeral is read as the double that covers it (`toFloat_eq`). Small significands and powers of ten
are doubles themselves, and the numeral is their product or quotient; for the others the same is
done with whole numbers of any size. Large exponents are not even tried: the bounds on them are
outside of what doubles cover (`Covers.lt_bound`, `Covers.bound_le`).
-/

namespace IntervalDump

open Float.Model Float.Model.UnpackedFloat

namespace Dyadic

variable {d : Dyadic} {q : ℚ}

/-- The double with these parts. -/
def IsDouble.toFloat (hd : d.IsDouble) (sign : Sign) : Float :=
  .ofModel (.pack (.finite sign d.significand d.exponent hd.pos))

/-- A double covers itself. -/
theorem covers_self (d : Dyadic) : d.Covers (d.significand * 2 ^ d.exponent) := by
  have hunit : (0 : ℚ) < 2 ^ d.exponent := by positivity
  have hquarter := d.quarter_le_halfBelow
  have hlow : (d.significand - d.halfBelow) * 2 ^ d.exponent < d.significand * 2 ^ d.exponent := by
    gcongr
    linarith
  have hhigh : d.significand * 2 ^ d.exponent < (d.significand + 1 / 2) * (2 : ℚ) ^ d.exponent := by
    gcongr
    linarith
  exact ⟨hlow.le, hhigh.le, fun _ => hlow.ne, fun _ => hhigh.ne⟩

/-- What is covered does not overflow. -/
theorem Covers.lt_bound (h : d.Covers q) (hd : d.IsDouble) : q < 2 ^ (1024 : Int) := by
  have hle := hd.exponent_le
  calc q < 2 ^ (d.exponent + 53) := h.lt_two_zpow hd
    _ ≤ 2 ^ (1024 : Int) := zpow_le_zpow_right₀ (by norm_num) (by omega)

/-- What is covered does not vanish. -/
theorem Covers.bound_le (h : d.Covers q) (hd : d.IsDouble) : 2 ^ (-1075 : Int) ≤ q := by
  have hone : (1 : ℚ) ≤ d.significand := by exact_mod_cast hd.pos
  have hhalf := d.halfBelow_le
  have hunit : (2 : ℚ) ^ (-1074 : Int) ≤ 2 ^ d.exponent :=
    zpow_le_zpow_right₀ (by norm_num) hd.exponent_ge
  calc (2 : ℚ) ^ (-1075 : Int) = 1 / 2 * 2 ^ (-1074 : Int) := by
        rw [show (-1075 : Int) = -1074 - 1 from rfl, zpow_sub_one₀ (by norm_num)]
        ring
    _ ≤ 1 / 2 * 2 ^ d.exponent := by gcongr
    _ ≤ (d.significand - d.halfBelow) * 2 ^ d.exponent := by
      gcongr
      linarith
    _ ≤ q := h.low

/-- A number below `2 ^ 53` is a double, and all 53 digits can be used for it. -/
theorem exists_isDouble {n : Nat} (hpos : 0 < n) (hlt : n < 2 ^ 53) :
    ∃ d : Dyadic, d.IsDouble ∧ 2 ^ 52 ≤ d.significand ∧
      (d.significand * 2 ^ d.exponent : ℚ) = n := by
  have hlog : n.log2 < 53 := (Nat.log2_lt hpos.ne').mpr hlt
  obtain ⟨shift, hshift⟩ : ∃ shift, n.log2 + shift = 52 := ⟨52 - n.log2, by omega⟩
  have hlow : 2 ^ 52 ≤ n * 2 ^ shift := by
    rw [← hshift, pow_add]
    have := Nat.log2_self_le hpos.ne'
    gcongr
  have hhigh : n * 2 ^ shift < 2 ^ 53 := by
    rw [show 53 = n.log2 + 1 + shift by omega, pow_add]
    have := Nat.lt_log2_self (n := n)
    gcongr
  refine ⟨⟨n * 2 ^ shift, -shift, n * 2 ^ shift == 2 ^ 52⟩, ⟨?_, hhigh, ?_, ?_, ?_, ?_⟩, hlow, ?_⟩
  · show 0 < n * 2 ^ shift
    omega
  · show (-1074 : Int) ≤ -shift
    omega
  · show (-shift : Int) ≤ 971
    omega
  · intro _
    exact hlow
  · have hne : (-shift : Int) ≠ -1074 := by omega
    simp [hne]
  · push_cast
    rw [zpow_neg, zpow_natCast, mul_assoc, mul_inv_cancel₀ (by positivity), mul_one]

end Dyadic

namespace Rounding

variable {d : IntervalDump.Dyadic} (hd : d.IsDouble)

/-! ## Exact doubles -/

include hd in
/-- **What a number covers is rounded to it.** -/
theorem round_eq {m : Nat} {e : Int} (hm : 0 < m) (hq : d.Covers (m * 2 ^ e)) (sign : Sign) :
    UnpackedFloat.round .binary64 sign m e = .finite sign d.significand d.exponent hd.pos := by
  set target := Format.binary64.targetExponent (totalExponent m e) with htarget
  set shift := (e - target).toNat with hshift
  have hvalue : (m * 2 ^ e : ℚ) / 2 ^ (e - shift) = (m <<< shift : Nat) := by
    rw [Nat.shiftLeft_eq, zpow_sub₀ (by norm_num), zpow_natCast]
    push_cast
    field_simp
  have h := Approximates.exact (m <<< shift)
  rw [← hvalue] at h
  refine roundWithAccuracy_eq hd hq h ?_ sign
  have hlog : m.log2 + shift ≤ (m <<< shift).log2 := by
    rw [Nat.shiftLeft_eq, Nat.le_log2 (by positivity), pow_add]
    have := Nat.log2_self_le hm.ne'
    gcongr
  rw [targetExponent_eq] at htarget ⊢
  omega

/-- The double is this positive number, and its significand has all digits. -/
def IsExactly (x : Float) (q : ℚ) : Prop :=
  ∃ m e, ∃ hm : 0 < m, x.toModel.unpack = .finite .positive m e hm ∧ 2 ^ 52 ≤ m ∧ m * 2 ^ e = q

/-- A small natural number is a float exactly. -/
theorem isExactly_toFloat {n : Nat} (hpos : 0 < n) (hlt : n < 2 ^ 53) :
    IsExactly n.toUInt64.toFloat n := by
  obtain ⟨d, hd, hdigits, hvalue⟩ := Dyadic.exists_isDouble hpos hlt
  have hn : n.toUInt64.toNat = n := by
    rw [Nat.toUInt64, UInt64.toNat_ofNat', Nat.mod_eq_of_lt (by omega)]
  have hround : UnpackedFloat.ofUInt64 .binary64 n.toUInt64 =
      .finite .positive d.significand d.exponent hd.pos := by
    have hcompare : compare (n : Int) 0 = .gt := by
      rw [Int.compare_eq_gt]
      omega
    have hcovers : d.Covers (n * 2 ^ (0 : Int)) := by
      rw [zpow_zero, mul_one, ← hvalue]
      exact d.covers_self
    simp only [UnpackedFloat.ofUInt64, UnpackedFloat.ofNat, UnpackedFloat.ofInt,
      UnpackedFloat.normalize, hn, hcompare, Int.toNat_natCast, round_eq hd hpos hcovers]
  refine ⟨_, _, hd.pos, ?_, hdigits, hvalue⟩
  show UnpackedFloat.unpack .binary64 (UnpackedFloat.pack .binary64
    (UnpackedFloat.ofUInt64 .binary64 n.toUInt64)) = _
  rw [hround, unpack_pack hd]

/-- The entries of the table of powers of ten are these powers. -/
theorem isExactly_powerOfTen : ∀ e : Fin 23,
    IsExactly Float.exactlyRepresentablePowersOfTen[e] (10 ^ (e : Nat)) := by
  have htable : ∀ e : Fin 23, ∀ x, x = Float.exactlyRepresentablePowersOfTen[e] →
      x.isFinite = true ∧ x.toBits.toNat % 2 ^ 63 ≠ 0 ∧ x.toBits.toNat / 2 ^ 63 ≠ 1 ∧
        2 ^ 52 ≤ (Dyadic.ofBits x.toBits).significand ∧
        (Dyadic.ofBits x.toBits).significand * 2 ^ (Dyadic.ofBits x.toBits).exponent.toNat =
          10 ^ (e : Nat) * 2 ^ (-(Dyadic.ofBits x.toBits).exponent).toNat := by
    simp only [forall_eq]
    decide +kernel
  intro e
  obtain ⟨hfinite, hne, hsign, hdigits, hvalue⟩ := htable e _ rfl
  rcases unpack_finite hfinite with ⟨hzero, -⟩ | ⟨-, hd, hunpack⟩
  · exact absurd hzero hne
  rw [signOf, if_neg hsign] at hunpack
  refine ⟨_, _, hd.pos, hunpack, hdigits, ?_⟩
  rw [Dyadic.zpow_eq_div (by norm_num), mul_div_assoc', div_eq_iff (by positivity)]
  exact_mod_cast hvalue

section Exactly

variable {x y : Float} {p q : ℚ} (hx : IsExactly x p) (hy : IsExactly y q)
include hx hy

/-- A product of exact floats is rounded once. -/
theorem IsExactly.mul (hq : d.Covers (p * q)) : x * y = hd.toFloat .positive := by
  obtain ⟨m₁, e₁, h₁, hx, hdigits, rfl⟩ := hx
  obtain ⟨m₂, e₂, h₂, hy, -, rfl⟩ := hy
  have hdigits : 2 ^ 52 ≤ m₁ * m₂ := Nat.le_mul_of_pos_right m₁ h₂ |>.trans' hdigits
  show Float.ofModel (.pack (UnpackedFloat.mul .binary64 x.toModel.unpack y.toModel.unpack)) = _
  rw [hx, hy, mul_eq hd h₁ h₂ hq hdigits]
  rfl

/-- A quotient of exact floats is rounded once. -/
theorem IsExactly.div (hq : d.Covers (p / q)) : x / y = hd.toFloat .positive := by
  obtain ⟨m₁, e₁, h₁, hx, -, rfl⟩ := hx
  obtain ⟨m₂, e₂, h₂, hy, -, rfl⟩ := hy
  show Float.ofModel (.pack (UnpackedFloat.div .binary64 x.toModel.unpack y.toModel.unpack)) = _
  rw [hx, hy, div_eq hd h₁ h₂ hq]
  rfl

end Exactly

/-! ## Digits and a power of ten -/

/-- A power of two below a power of ten, with the powers as rationals. -/
theorem two_zpow_le {a b : Nat} (h : 2 ^ a ≤ 10 ^ b) : (2 : ℚ) ^ (a : Int) ≤ 10 ^ (b : Int) := by
  rw [zpow_natCast, zpow_natCast]
  exact_mod_cast h

/-- A power of ten that divides, above a power of two that does. -/
theorem ten_zpow_le {a b : Nat} (h : 2 ^ a ≤ 10 ^ b) :
    (10 : ℚ) ^ (-b : Int) ≤ 2 ^ (-a : Int) := by
  rw [zpow_neg, zpow_neg, inv_le_inv₀ (by positivity) (by positivity)]
  exact two_zpow_le h

section Scientific

variable {n : Nat} (hn : 0 < n)
include hn

omit hn in
/-- A number is below the power of two behind its highest bit. -/
theorem natCast_lt_two_zpow (n : Nat) : (n : ℚ) < 2 ^ (n.log2 + 1 : Int) := by
  have hlog : n < 2 ^ (n.log2 + 1) := Nat.lt_log2_self
  exact_mod_cast hlog

include hd in
/-- The bounds on the exponent exclude nothing that a double covers. -/
theorem exponent_bounds {e : Int} (hq : d.Covers (n * 10 ^ e)) :
    e ≤ 2 ^ 11 ∧ -(2 ^ 11 + n.log2 : Int) ≤ e := by
  constructor
  · by_contra habove
    obtain ⟨k, rfl⟩ : ∃ k : Nat, e = k := ⟨e.toNat, by omega⟩
    have hone : (1 : ℚ) ≤ n := by exact_mod_cast hn
    have hlt : (2 : ℚ) ^ (1024 : Int) < 2 ^ (1024 : Int) := by
      calc (2 : ℚ) ^ (1024 : Int) ≤ 2 ^ (k : Int) := zpow_le_zpow_right₀ (by norm_num) (by omega)
        _ ≤ 10 ^ (k : Int) := two_zpow_le (Nat.pow_le_pow_left (by decide) k)
        _ ≤ n * 10 ^ (k : Int) := le_mul_of_one_le_left (by positivity) hone
        _ < 2 ^ (1024 : Int) := hq.lt_bound hd
    exact lt_irrefl _ hlt
  · by_contra hbelow
    obtain ⟨k, rfl⟩ : ∃ k : Nat, e = -k := ⟨(-e).toNat, by omega⟩
    have hlt : (2 : ℚ) ^ (-1075 : Int) < 2 ^ (-1075 : Int) := by
      calc (2 : ℚ) ^ (-1075 : Int) ≤ n * 10 ^ (-k : Int) := hq.bound_le hd
        _ ≤ n * 2 ^ (-k : Int) := by
          have := ten_zpow_le (Nat.pow_le_pow_left (by decide : 2 ≤ 10) k)
          gcongr
        _ < 2 ^ (n.log2 + 1 : Int) * 2 ^ (-k : Int) := by
          have := natCast_lt_two_zpow n
          gcongr
        _ = 2 ^ (n.log2 + 1 - k : Int) := by
          rw [← zpow_add₀ (by norm_num)]
          rfl
        _ ≤ 2 ^ (-1075 : Int) := zpow_le_zpow_right₀ (by norm_num) (by omega)
    exact lt_irrefl _ hlt

/-- With whole numbers of any size. -/
theorem ofScientific_unpacked {e : Int} (hq : d.Covers (n * 10 ^ e)) :
    UnpackedFloat.ofScientific .binary64 n e =
      .finite .positive d.significand d.exponent hd.pos := by
  obtain ⟨hle, hge⟩ := exponent_bounds hd hn hq
  have hlarge : ¬ e > 2 ^ Format.binary64.exponentBits := not_lt.mpr hle
  have hsmall : ¬ e < -((2 ^ Format.binary64.exponentBits : Int) + n.log2) := not_lt.mpr hge
  simp only [UnpackedFloat.ofScientific, dif_neg hn.ne', if_neg hlarge, if_neg hsmall]
  split
  · next he =>
    -- The significand comes with 53 zeros behind it, so the product has all digits at once.
    refine mul_eq hd _ _ ?_ ?_ .positive .positive
    · have hvalue : ((n <<< Format.binary64.mantissaBits : Nat) : ℚ) *
          2 ^ (-Format.binary64.mantissaBits : Int) * ((10 ^ e.toNat : Nat) * 2 ^ (0 : Int)) =
          n * 10 ^ e := by
        rw [Nat.shiftLeft_eq, zpow_neg, zpow_natCast, zpow_zero, mul_one]
        push_cast
        rw [mul_assoc (n : ℚ), mul_inv_cancel₀ (by positivity), mul_one, ← zpow_natCast,
          Int.toNat_of_nonneg he]
      rwa [hvalue]
    · rw [Nat.shiftLeft_eq]
      calc 2 ^ 52 ≤ 1 * 2 ^ 53 * 1 := by decide
        _ ≤ n * 2 ^ 53 * 10 ^ e.toNat := by
          have : 1 ≤ 10 ^ e.toNat := Nat.one_le_pow _ _ (by decide)
          gcongr
          exact hn
  · next he =>
    refine div_eq hd _ _ ?_ .positive .positive
    have hvalue : (n : ℚ) * 2 ^ (0 : Int) / ((10 ^ (-e).toNat : Nat) * 2 ^ (0 : Int)) =
        n * 10 ^ e := by
      rw [zpow_zero, mul_one, mul_one]
      push_cast
      rw [← zpow_natCast, Int.toNat_of_nonneg (by omega), zpow_neg, div_inv_eq_mul]
    rwa [hvalue]

/-- **A decimal with a positive exponent is rounded to the number that covers it.** -/
theorem ofScientific_mul {e : Nat} (hq : d.Covers (n * 10 ^ e)) :
    Float.ofScientific n false e = hd.toFloat .positive := by
  unfold Float.ofScientific
  split
  · next h =>
    exact (isExactly_toFloat hn h.1).mul hd (isExactly_powerOfTen ⟨e, by omega⟩) hq
  · have hunpacked := ofScientific_unpacked hd hn (e := e) (by rwa [zpow_natCast])
    show Float.ofModel (.pack (UnpackedFloat.ofScientific .binary64 n e)) = _
    rw [hunpacked]
    rfl

/-- **A decimal with a negative exponent is rounded to the number that covers it.** -/
theorem ofScientific_div {e : Nat} (hq : d.Covers (n / 10 ^ e)) :
    Float.ofScientific n true e = hd.toFloat .positive := by
  unfold Float.ofScientific
  split
  · next h =>
    exact (isExactly_toFloat hn h.1).div hd (isExactly_powerOfTen ⟨e, by omega⟩) hq
  · have hunpacked := ofScientific_unpacked hd hn (e := -e) (by
      rwa [zpow_neg, zpow_natCast, ← div_eq_mul_inv])
    show Float.ofModel (.pack (UnpackedFloat.ofScientific .binary64 n (Int.negOfNat e))) = _
    rw [Int.negOfNat_eq, Int.ofNat_eq_natCast, hunpacked]
    rfl

include hd in
/-- The bounds on the number of digits before the point exclude nothing that a double covers. -/
theorem width_bounds {e : Int} (hq : d.Covers (n * 10 ^ e)) :
    -330 ≤ e + Decimal.width n ∧ e + Decimal.width n ≤ 310 := by
  constructor
  · by_contra hbelow
    have hwidth : (n : ℚ) < 10 ^ (Decimal.width n : Int) := by
      rw [zpow_natCast]
      exact_mod_cast Decimal.lt_pow_width n
    have hlt : (2 : ℚ) ^ (-1075 : Int) < 2 ^ (-1075 : Int) := by
      calc (2 : ℚ) ^ (-1075 : Int) ≤ n * 10 ^ e := hq.bound_le hd
        _ < 10 ^ (Decimal.width n : Int) * 10 ^ e := by gcongr
        _ = 10 ^ (e + Decimal.width n) := by
          rw [zpow_add₀ (by norm_num), mul_comm]
        _ ≤ 10 ^ (-331 : Int) := zpow_le_zpow_right₀ (by norm_num) (by omega)
        _ ≤ 2 ^ (-1075 : Int) := ten_zpow_le (by decide +kernel)
    exact lt_irrefl _ hlt
  · by_contra habove
    have hpos := Decimal.width_pos n
    have hwidth : (10 : ℚ) ^ (Decimal.width n - 1 : Int) ≤ n := by
      rw [show (Decimal.width n - 1 : Int) = (Decimal.width n - 1 : Nat) by omega, zpow_natCast]
      exact_mod_cast Decimal.pow_width_le hn
    have hlt : (2 : ℚ) ^ (1024 : Int) < 2 ^ (1024 : Int) := by
      calc (2 : ℚ) ^ (1024 : Int) ≤ 10 ^ (310 : Int) := two_zpow_le (by decide +kernel)
        _ ≤ 10 ^ (Decimal.width n - 1 + e) := zpow_le_zpow_right₀ (by norm_num) (by omega)
        _ = 10 ^ (Decimal.width n - 1 : Int) * 10 ^ e := zpow_add₀ (by norm_num) _ _
        _ ≤ n * 10 ^ e := by gcongr
        _ < 2 ^ (1024 : Int) := hq.lt_bound hd
    exact lt_irrefl _ hlt

/-- **The nearest double is the one that covers the number**, whichever way it is computed. -/
theorem nearest_eq {e : Int} (hq : d.Covers (n * 10 ^ e)) :
    Numeral.nearest n e = hd.toFloat .positive := by
  obtain ⟨hge, hle⟩ := width_bounds hd hn hq
  have hzero : ¬ (n = 0 ∨ e + Decimal.width n < -330) := by omega
  simp only [Numeral.nearest, if_neg hzero, if_neg (not_lt.mpr hle)]
  split
  · next he =>
    obtain ⟨k, rfl⟩ : ∃ k : Nat, e = -k := ⟨e.natAbs, by omega⟩
    rw [Int.natAbs_neg, Int.natAbs_natCast]
    rw [zpow_neg, zpow_natCast, ← div_eq_mul_inv] at hq
    exact ofScientific_div hd hn hq
  · next he =>
    obtain ⟨k, rfl⟩ : ∃ k : Nat, e = k := ⟨e.natAbs, by omega⟩
    rw [Int.natAbs_natCast]
    rw [zpow_natCast] at hq
    exact ofScientific_mul hd hn hq

end Scientific

end Rounding

/-! ## Numerals -/

namespace Numeral

/-- The negative of a number is the number with the other sign. -/
theorem neg_toFloat {d : IntervalDump.Dyadic} (hd : d.IsDouble) :
    -(hd.toFloat .positive) = hd.toFloat .negative := by
  show Float.ofModel (.pack (UnpackedFloat.neg (UnpackedFloat.unpack .binary64
    (UnpackedFloat.pack .binary64 (.finite .positive d.significand d.exponent hd.pos))))) = _
  rw [unpack_pack hd]
  rfl

/-- With the sign of a double, a numeral is read as what that sign makes of its magnitude. -/
theorem toFloat_of_sign {magnitude : Magnitude} {ofSign : Sign → Float}
    (hpositive : Magnitude.toFloat magnitude = ofSign .positive)
    (hneg : -(ofSign .positive) = ofSign .negative) (x : Float) :
    toFloat ⟨x.toBits.toNat / 2 ^ 63 == 1, magnitude⟩ = ofSign (signOf x) := by
  by_cases hsign : x.toBits.toNat / 2 ^ 63 = 1
  · rw [signOf, if_pos hsign, ← hneg, ← hpositive, toFloat, if_pos (beq_iff_eq.mpr hsign)]
  · rw [signOf, if_neg hsign, ← hpositive, toFloat, if_neg (by simpa using hsign)]

/-- Zero with a sign. -/
def signedZero (sign : Sign) : Float :=
  .ofModel (.pack (.zero sign))

/-- The negative of zero is the negative zero. -/
theorem neg_signedZero : -(signedZero .positive) = signedZero .negative := by
  decide

/-- Zero is read as zero, whatever its exponent. -/
theorem nearest_zero (exponent : Int) : nearest 0 exponent = signedZero .positive := by
  show Float.ofBits 0 = signedZero .positive
  decide

variable {x : Float} (hfinite : x.isFinite = true)
include hfinite

/-- A zero keeps its sign. -/
theorem toFloat_zero (hzero : x.toBits.toNat % 2 ^ 63 = 0) (exponent : Int) :
    toFloat ⟨x.toBits.toNat / 2 ^ 63 == 1, .finite 0 exponent⟩ = x := by
  rcases unpack_finite hfinite with ⟨-, hunpack⟩ | ⟨hne, -⟩
  · have hx : x = signedZero (signOf x) := by
      rw [signedZero, ← hunpack, ← toModel_eq_pack]
    have hpositive : Magnitude.toFloat (.finite 0 exponent) = signedZero .positive :=
      nearest_zero exponent
    exact (toFloat_of_sign hpositive neg_signedZero x).trans hx.symm
  · exact absurd hzero hne

/-- **A numeral is read as the double that covers it.** -/
theorem toFloat_eq (hne : x.toBits.toNat % 2 ^ 63 ≠ 0) {n : Nat} {exponent : Int}
    (hq : (Dyadic.ofBits x.toBits).Covers (n * 10 ^ exponent)) :
    toFloat ⟨x.toBits.toNat / 2 ^ 63 == 1, .finite n exponent⟩ = x := by
  rcases unpack_finite hfinite with ⟨hzero, -⟩ | ⟨-, hd, hunpack⟩
  · exact absurd hzero hne
  · have hx : x = hd.toFloat (signOf x) := by
      rw [Dyadic.IsDouble.toFloat, ← hunpack, ← toModel_eq_pack]
    have hpositive : Magnitude.toFloat (.finite n exponent) = hd.toFloat .positive :=
      Rounding.nearest_eq hd (hq.digits_pos hd) hq
    exact (toFloat_of_sign hpositive (neg_toFloat hd) x).trans hx.symm

end Numeral

end IntervalDump
