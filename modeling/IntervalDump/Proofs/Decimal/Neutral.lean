import IntervalDump.Proofs.Decimal.Nearest
/-!
# Adding to zero and dividing by one

Dividing a double by one gives this double (`div_one_eq`). Adding it to zero gives it too, except
that a negative zero becomes a positive one (`zero_add_cases`). So the sum is the same number
(`sameNumber_zero_add`), and adding it to zero once more changes nothing (`zero_add_zero_add`).
-/

namespace IntervalDump

open Float.Model Float.Model.UnpackedFloat

/-- The numbers are equal, or neither is a number. -/
def SameNumber (x y : Float) : Prop :=
  (x == y) = true ∨ x.isNaN = true ∧ y.isNaN = true

/-- The number zero, unpacked. -/
theorem unpack_zero : (0 : Float).toModel.unpack = .zero .positive :=
  rfl

/-- The number one, unpacked. -/
theorem unpack_one :
    (1 : Float).toModel.unpack = .finite .positive (2 ^ 52) (-52) (by decide) :=
  rfl

/-- A double is determined by its parts. -/
theorem eq_ofModel_pack (x : Float) : x = .ofModel (.pack x.toModel.unpack) := by
  rw [← toModel_eq_pack]

/-- Numbers are compared as they are when unpacked. -/
theorem beq_eq (x y : Float) : (x == y) = UnpackedFloat.beq x.toModel.unpack y.toModel.unpack :=
  rfl

/-- Every double is the same number as itself, even if it is none. -/
theorem sameNumber_refl (x : Float) : SameNumber x x := by
  unfold SameNumber
  rw [beq_eq]
  rcases hx : x.toModel.unpack with sign | _ | sign | ⟨sign, m, e, hpos⟩
  · left
    cases sign <;> rfl
  · right
    have hnan : x.isNaN = true := congrArg UnpackedFloat.isNaN hx
    exact ⟨hnan, hnan⟩
  · left
    rfl
  · left
    cases sign <;> simp [UnpackedFloat.beq, UnpackedFloat.compare]

/-! ## Dividing by one -/

/-- A positive divisor leaves the sign. -/
theorem div_positive (sign : Sign) : sign / .positive = sign := by
  cases sign <;> rfl

/-- A finite number other than zero is not rounded: it is a double already. -/
theorem div_one_of_finite {x : Float} {sign : Sign} {m : Nat} {e : Int} {hpos : 0 < m}
    (hx : x.toModel.unpack = .finite sign m e hpos) :
    div .binary64 x.toModel.unpack (.finite .positive (2 ^ 52) (-52) (by decide)) =
      x.toModel.unpack := by
  have hfinite : x.isFinite = true := congrArg UnpackedFloat.isFinite hx
  rcases unpack_finite hfinite with ⟨-, hzero⟩ | ⟨-, hd, hunpack⟩
  · rw [hx] at hzero
    contradiction
  · set d := Dyadic.ofBits x.toBits
    have hvalue : (d.significand * 2 ^ d.exponent / ((2 ^ 52 : Nat) * 2 ^ (-52 : Int)) : ℚ) =
        d.significand * 2 ^ d.exponent := by
      norm_num
    have hcovers := Dyadic.covers_self d
    rw [← hvalue] at hcovers
    rw [hunpack, Rounding.div_eq hd hd.pos (by decide) hcovers, div_positive]

/-- **Dividing by one changes nothing.** -/
theorem div_one_eq (x : Float) : x / 1 = x := by
  have hdiv : x / 1 =
      .ofModel (.pack (div .binary64 x.toModel.unpack (1 : Float).toModel.unpack)) := rfl
  have hsame : div .binary64 x.toModel.unpack (1 : Float).toModel.unpack = x.toModel.unpack := by
    rw [unpack_one]
    rcases hx : x.toModel.unpack with sign | _ | sign | _
    · exact congrArg UnpackedFloat.infinity (div_positive sign)
    · rfl
    · exact congrArg UnpackedFloat.zero (div_positive sign)
    · rw [← hx]
      exact div_one_of_finite hx
  rw [hdiv, hsame, ← eq_ofModel_pack]

/-! ## Adding to zero -/

/-- **Adding to zero** changes nothing but the sign of a zero. -/
theorem zero_add_cases (x : Float) :
    0 + x = x ∨ 0 + x = 0 ∧ ∃ sign, x.toModel.unpack = .zero sign := by
  have hadd : 0 + x =
      .ofModel (.pack (add .binary64 (0 : Float).toModel.unpack x.toModel.unpack)) := rfl
  rw [unpack_zero] at hadd
  have hself := eq_ofModel_pack x
  rcases hx : x.toModel.unpack with sign | _ | sign | _ <;> rw [hx] at hadd hself
  · exact .inl (hadd.trans hself.symm)
  · exact .inl (hadd.trans hself.symm)
  · refine .inr ⟨?_, sign, rfl⟩
    rw [hadd, eq_ofModel_pack 0, unpack_zero]
    cases sign <;> rfl
  · exact .inl (hadd.trans hself.symm)

/-- Zero added to a number gives the same number, but perhaps another zero. -/
theorem sameNumber_zero_add (x : Float) : SameNumber x (0 + x) := by
  rcases zero_add_cases x with hsame | ⟨hzero, sign, hx⟩
  · rw [hsame]
    exact sameNumber_refl x
  · left
    rw [hzero, beq_eq, hx, unpack_zero]
    rfl

/-- Adding zero once more changes nothing, not even a zero. -/
theorem zero_add_zero_add (x : Float) : 0 + (0 + x) = 0 + x := by
  rcases zero_add_cases x with hsame | ⟨hzero, -⟩
  · rw [hsame]
    exact hsame
  · rw [hzero, eq_ofModel_pack (0 + 0)]
    rfl

end IntervalDump
