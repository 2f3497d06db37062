import IntervalDump.Proofs.Decimal.Interval
/-!
# The bits of a double

The bits of a finite double are a sign, an exponent and the digits of its significand, and
`Dyadic.ofBits` reads them as the arithmetic on doubles does (`unpack_finite`). The parts are found
again in the bits that are made of them (`unpack_pack`).
-/

namespace IntervalDump

open Float.Model Float.Model.UnpackedFloat

section Fields

variable (b : BitVec Format.binary64.numBits)

/-- The fraction is in the low bits. -/
theorem toNat_unpackMantissa : (unpackMantissa b).toNat = b.toNat % 2 ^ 52 := by
  simp [unpackMantissa]

/-- The biased exponent is in the bits above the fraction. -/
theorem toNat_unpackExponent : (unpackExponent b).toNat = b.toNat / 2 ^ 52 % 2 ^ 11 := by
  simp [unpackExponent, Nat.shiftRight_eq_div_pow]

/-- The sign is the highest bit. -/
theorem toNat_unpackSign : (unpackSign b).toNat = b.toNat / 2 ^ 63 % 2 := by
  simp [unpackSign, Nat.shiftRight_eq_div_pow]

end Fields

/-- The significand of a normal number begins with a one that is not written down. -/
theorem toNat_normal (mantissa : BitVec 52) :
    (1#1 ++ mantissa).toNat = 2 ^ 52 + mantissa.toNat := by
  rw [BitVec.toNat_append, ← Nat.shiftLeft_add_eq_or_of_lt mantissa.isLt]
  rfl

section Finite

variable {b : BitVec Format.binary64.numBits}
  (hfinite : (UnpackedFloat.unpack .binary64 b).isFinite = true)
include hfinite

/-- The exponent of a finite number is not all ones. -/
theorem toNat_unpackExponent_lt : (unpackExponent b).toNat < 2047 := by
  by_contra hge
  have hones : unpackExponent b = -1#11 := by
    apply BitVec.eq_of_toNat_eq
    have : (unpackExponent b).toNat < 2 ^ 11 := (unpackExponent b).isLt
    simp only [BitVec.neg_one_eq_allOnes, BitVec.toNat_allOnes]
    omega
  simp only [UnpackedFloat.unpack, hones, if_true] at hfinite
  split at hfinite <;> contradiction

/-- The three sorts of finite doubles: zeros, those with the smallest exponent, and those with a
significand of 53 digits, of which the first one is not written. -/
theorem unpack_cases :
    unpackExponent b = 0#11 ∧ unpackMantissa b = 0#52 ∧
        UnpackedFloat.unpack .binary64 b = .zero (Sign.ofBitVec (unpackSign b)) ∨
      unpackExponent b = 0#11 ∧ (∃ hpos : 0 < (unpackMantissa b).toNat,
        UnpackedFloat.unpack .binary64 b =
          .finite (Sign.ofBitVec (unpackSign b)) (unpackMantissa b).toNat (-1074) hpos) ∨
      unpackExponent b ≠ 0#11 ∧ ∃ hpos : 0 < 2 ^ 52 + (unpackMantissa b).toNat,
        UnpackedFloat.unpack .binary64 b =
          .finite (Sign.ofBitVec (unpackSign b)) (2 ^ 52 + (unpackMantissa b).toNat)
            ((unpackExponent b).toNat - 1075) hpos := by
  have hlt := toNat_unpackExponent_lt hfinite
  have hones : unpackExponent b ≠ -1#11 := by
    intro h
    rw [h] at hlt
    contradiction
  by_cases hzero : unpackExponent b = 0#11
  · by_cases hmantissa : unpackMantissa b = 0#52
    · refine .inl ⟨hzero, hmantissa, ?_⟩
      simp only [UnpackedFloat.unpack, hzero, hmantissa, dite_true, if_true]
      rfl
    · have hne : (unpackMantissa b).toNat ≠ 0 := by
        rwa [Ne, ← BitVec.toNat_zero, BitVec.toNat_inj]
      refine .inr (.inl ⟨hzero, Nat.pos_of_ne_zero hne, ?_⟩)
      simp only [UnpackedFloat.unpack, hzero, hmantissa, dite_false, if_true]
      rfl
  · refine .inr (.inr ⟨hzero, by omega, ?_⟩)
    simp only [UnpackedFloat.unpack, hones, hzero, if_false, toNat_normal]
    rfl

end Finite

section Parts

variable (sign : Sign) {exponent : BitVec 11} {mantissa : BitVec 52}

/-- A normal number, unpacked. -/
theorem unpack_normal (hzero : exponent ≠ 0#11) (hones : exponent ≠ -1#11)
    (hpos : 0 < 2 ^ 52 + mantissa.toNat) :
    UnpackedFloat.unpack .binary64 (packComponents .binary64 sign exponent mantissa) =
      .finite sign (2 ^ 52 + mantissa.toNat) (exponent.toNat - 1075) hpos := by
  simp only [UnpackedFloat.unpack, unpackExponent_packComponents, unpackMantissa_packComponents,
    unpackSign_packComponents, Sign.ofBitVec_toBitVec, hzero, hones, if_false, toNat_normal]
  rfl

/-- A number with the smallest exponent, unpacked. -/
theorem unpack_smallest (hpos : 0 < mantissa.toNat) :
    UnpackedFloat.unpack .binary64 (packComponents .binary64 sign 0#11 mantissa) =
      .finite sign mantissa.toNat (-1074) hpos := by
  have hne : mantissa ≠ 0#52 := by
    rintro rfl
    exact absurd hpos (by decide)
  simp only [UnpackedFloat.unpack, unpackExponent_packComponents, unpackMantissa_packComponents,
    unpackSign_packComponents, Sign.ofBitVec_toBitVec, hne, dite_false, if_true]
  rfl

/-- The first of 53 digits is not written. -/
theorem pack_normal {biased fraction : Nat} (hlt : biased < 2047) (hfraction : fraction < 2 ^ 52)
    (hpos : 0 < 2 ^ 52 + fraction) :
    UnpackedFloat.pack .binary64 (.finite sign (2 ^ 52 + fraction) (biased - 1075) hpos) =
      packComponents .binary64 sign (BitVec.ofNat 11 biased) (BitVec.ofNat 52 fraction) := by
  have hbias : ((biased - 1075 : Int) + Format.binary64.exponentBias +
      Format.binary64.mantissaBitsWithoutImplicit).toNat = biased := by
    simp only [Format.exponentBias]
    omega
  have hfits : ¬ 2 ^ Format.binary64.exponentBits ≤ biased + 1 := by
    show ¬ 2 ^ 11 ≤ biased + 1
    omega
  have hlog : (2 ^ 52 + fraction).log2 = 52 := by
    rw [Nat.log2_eq_iff hpos.ne']
    omega
  have hlow : BitVec.ofNat 52 (2 ^ 52 + fraction) = BitVec.ofNat 52 fraction := by
    apply BitVec.eq_of_toNat_eq
    rw [BitVec.toNat_ofNat, BitVec.toNat_ofNat, Nat.add_mod_left]
  simp only [UnpackedFloat.pack, hbias]
  rw [if_neg hfits, if_pos (by rw [hlog]; rfl), hlow]

/-- A shorter significand is written as it is. -/
theorem pack_smallest {fraction : Nat} (hlt : fraction < 2 ^ 52) (hpos : 0 < fraction) :
    UnpackedFloat.pack .binary64 (.finite sign fraction (-1074) hpos) =
      packComponents .binary64 sign 0#11 (BitVec.ofNat 52 fraction) := by
  have hlog : fraction.log2 < 52 := (Nat.log2_lt hpos.ne').mpr hlt
  have hshort : ¬ fraction.log2 + 1 = Format.binary64.mantissaBits := by
    show ¬ fraction.log2 + 1 = 53
    omega
  simp only [UnpackedFloat.pack]
  rw [if_neg (by decide), if_neg hshort]

end Parts

/-- **Nothing of the parts of a double is lost in its bits.** -/
theorem unpack_pack {d : Dyadic} (hd : d.IsDouble) (sign : Sign) :
    UnpackedFloat.unpack .binary64
        (UnpackedFloat.pack .binary64 (.finite sign d.significand d.exponent hd.pos)) =
      .finite sign d.significand d.exponent hd.pos := by
  obtain ⟨significand, exponent, narrowBelow⟩ := d
  obtain ⟨hpos, hlt, hge, hle, hnormal, -⟩ := hd
  simp only at hpos hlt hge hle hnormal ⊢
  by_cases hdigits : 2 ^ 52 ≤ significand
  · obtain ⟨fraction, rfl⟩ := Nat.exists_eq_add_of_le hdigits
    obtain ⟨biased, rfl⟩ : ∃ biased : Nat, exponent = biased - 1075 :=
      ⟨(exponent + 1075).toNat, by omega⟩
    have hmantissa : (BitVec.ofNat 52 fraction).toNat = fraction := by
      rw [BitVec.toNat_ofNat, Nat.mod_eq_of_lt (by omega)]
    have hexponent : (BitVec.ofNat 11 biased).toNat = biased := by
      rw [BitVec.toNat_ofNat, Nat.mod_eq_of_lt (by omega)]
    rw [pack_normal sign (by omega) (by omega)]
    refine (unpack_normal sign ?_ ?_ (by omega)).trans ?_
    · intro hzero
      rw [hzero, BitVec.toNat_zero] at hexponent
      omega
    · intro hones
      rw [hones] at hexponent
      have : (-1#11).toNat = 2047 := rfl
      omega
    · simp only [hmantissa, hexponent]
  · have hsmallest : exponent = -1074 := by
      by_contra hne
      exact hdigits (hnormal hne)
    subst hsmallest
    have hmantissa : (BitVec.ofNat 52 significand).toNat = significand := by
      rw [BitVec.toNat_ofNat, Nat.mod_eq_of_lt (by omega)]
    rw [pack_smallest sign (by omega)]
    refine (unpack_smallest sign (by omega)).trans ?_
    simp only [hmantissa]

/-! ## A double and its dyadic -/

/-- The sign of a double. -/
def signOf (x : Float) : Sign :=
  if x.toBits.toNat / 2 ^ 63 = 1 then .negative else .positive

/-- The sign of a number is its highest bit. -/
theorem ofBitVec_unpackSign (x : Float) :
    Sign.ofBitVec (@unpackSign .binary64 x.toBits.toBitVec) = signOf x := by
  have hlt : x.toBits.toNat < 2 ^ 64 := x.toBits.toNat_lt
  have hsign := toNat_unpackSign x.toBits.toBitVec
  rw [UInt64.toNat_toBitVec] at hsign
  unfold Sign.ofBitVec signOf
  by_cases hzero : @unpackSign .binary64 x.toBits.toBitVec = 0#1
  · rw [hzero] at hsign
    rw [if_pos hzero, if_neg]
    intro hone
    rw [hone] at hsign
    contradiction
  · rw [if_neg hzero, if_pos]
    have hne : x.toBits.toNat / 2 ^ 63 % 2 ≠ 0 := by
      rw [← hsign]
      intro h
      exact hzero (BitVec.eq_of_toNat_eq h)
    omega

/-- Nothing of a double is lost in its parts. -/
theorem toModel_eq_pack (x : Float) : x.toModel = .pack x.toModel.unpack := by
  have hbits : UnpackedFloat.pack .binary64 x.toModel.unpack = x.toModel.toBits.toBitVec :=
    pack_unpack_of_valid x.toModel.valid
  rw [Float.Model.pack, Float.Model.mk.injEq, hbits]

/-- The bits of a number with the smallest exponent, taken apart. -/
theorem ofBits_of_smallest (bits : UInt64) (h : bits.toNat / 2 ^ 52 % 2 ^ 11 = 0) :
    Dyadic.ofBits bits = ⟨bits.toNat % 2 ^ 52, -1074, false⟩ :=
  if_pos h

/-- The bits of a normal number, taken apart. -/
theorem ofBits_of_normal (bits : UInt64) (h : bits.toNat / 2 ^ 52 % 2 ^ 11 ≠ 0) :
    Dyadic.ofBits bits = ⟨2 ^ 52 + bits.toNat % 2 ^ 52, (bits.toNat / 2 ^ 52 % 2 ^ 11 : Nat) - 1075,
      bits.toNat % 2 ^ 52 == 0 && bits.toNat / 2 ^ 52 % 2 ^ 11 != 1⟩ :=
  if_neg h

/-- A number with the smallest exponent is one that can be written in the format. -/
theorem isDouble_of_smallest {fraction : Nat} (hpos : 0 < fraction) (hlt : fraction < 2 ^ 52) :
    (⟨fraction, -1074, false⟩ : Dyadic).IsDouble where
  pos := hpos
  lt := by
    show fraction < 2 ^ 53
    omega
  exponent_ge := le_rfl
  exponent_le := by
    show (-1074 : Int) ≤ 971
    decide
  normal hne := absurd rfl hne
  narrowBelow_iff := by simp

/-- A normal number is one that can be written in the format. -/
theorem isDouble_of_normal {fraction biased : Nat} (hfraction : fraction < 2 ^ 52)
    (hbiased : biased ≠ 0) (hlt : biased < 2047) :
    (⟨2 ^ 52 + fraction, (biased : Int) - 1075, fraction == 0 && biased != 1⟩ : Dyadic).IsDouble
    where
  pos := by
    show 0 < 2 ^ 52 + fraction
    omega
  lt := by
    show 2 ^ 52 + fraction < 2 ^ 53
    omega
  exponent_ge := by
    show -1074 ≤ (biased : Int) - 1075
    omega
  exponent_le := by
    show (biased : Int) - 1075 ≤ 971
    omega
  normal _ := Nat.le_add_right _ _
  narrowBelow_iff := by
    have hone : biased ≠ 1 ↔ (biased : Int) - 1075 ≠ -1074 := by omega
    simp [hone]

/-- **A finite double is zero, or the number that its bits are read as.** -/
theorem unpack_finite {x : Float} (hfinite : x.isFinite = true) :
    x.toBits.toNat % 2 ^ 63 = 0 ∧ x.toModel.unpack = .zero (signOf x) ∨
      x.toBits.toNat % 2 ^ 63 ≠ 0 ∧ ∃ hd : (Dyadic.ofBits x.toBits).IsDouble,
        x.toModel.unpack = .finite (signOf x) (Dyadic.ofBits x.toBits).significand
          (Dyadic.ofBits x.toBits).exponent hd.pos := by
  have hexponent := toNat_unpackExponent x.toBits.toBitVec
  have hmantissa := toNat_unpackMantissa x.toBits.toBitVec
  have hlt := toNat_unpackExponent_lt (b := x.toBits.toBitVec) hfinite
  have hcases := unpack_cases (b := x.toBits.toBitVec) hfinite
  rw [ofBitVec_unpackSign] at hcases
  rw [UInt64.toNat_toBitVec] at hexponent hmantissa
  have hfraction : x.toBits.toNat % 2 ^ 52 < 2 ^ 52 := Nat.mod_lt _ (by decide)
  rcases hcases with ⟨hzero, hzero', h⟩ | ⟨hzero, hpos, h⟩ | ⟨hzero, hpos, h⟩
  · rw [hzero, BitVec.toNat_zero] at hexponent
    rw [hzero', BitVec.toNat_zero] at hmantissa
    exact .inl ⟨by omega, h⟩
  · rw [hzero, BitVec.toNat_zero] at hexponent
    simp only [hmantissa] at hpos h
    rw [ofBits_of_smallest _ hexponent.symm]
    exact .inr ⟨by omega, isDouble_of_smallest hpos hfraction, h⟩
  · have hne : x.toBits.toNat / 2 ^ 52 % 2 ^ 11 ≠ 0 := by
      rw [← hexponent]
      intro h
      exact hzero (BitVec.eq_of_toNat_eq h)
    rw [hexponent] at hlt
    simp only [hmantissa, hexponent] at h
    rw [ofBits_of_normal _ hne]
    exact .inr ⟨by omega, isDouble_of_normal hfraction hne hlt, h⟩

end IntervalDump
