import Mathlib
import IntervalDump.Decimal.Digits
/-!
# The number that digits spell
-/

namespace IntervalDump.Decimal

/-- Digits are read as the library reads them. -/
theorem ofDigits_eq (digits : List Char) : ofDigits digits = Nat.ofDigitChars 10 digits 0 :=
  rfl

/-- Digits in front weigh as much as there are places behind them. -/
theorem ofDigits_append (first second : List Char) :
    ofDigits (first ++ second) = 10 ^ second.length * ofDigits first + ofDigits second := by
  rw [ofDigits_eq, Nat.ofDigitChars_append, Nat.ofDigitChars_eq_ofDigitChars_zero]
  rfl

/-- Zeros are worth nothing. -/
theorem ofDigits_zeros (n : Nat) : ofDigits (List.replicate n '0') = 0 := by
  rw [ofDigits_eq, Nat.ofDigitChars_replicate_zero, Nat.mul_zero]

/-- Zeros behind shift the digits before them. -/
theorem ofDigits_append_zeros (digits : List Char) (n : Nat) :
    ofDigits (digits ++ List.replicate n '0') = 10 ^ n * ofDigits digits := by
  rw [ofDigits_append, ofDigits_zeros, List.length_replicate, Nat.add_zero]

/-- Zeros in front do not matter. -/
theorem ofDigits_zeros_append (n : Nat) (digits : List Char) :
    ofDigits (List.replicate n '0' ++ digits) = ofDigits digits := by
  rw [ofDigits_append, ofDigits_zeros, Nat.mul_zero, Nat.zero_add]

/-- The digits of a number are read as the number. -/
theorem ofDigits_toDigits (n : Nat) : ofDigits (Nat.toDigits 10 n) = n :=
  Nat.ofDigitChars_ten_toDigits

/-- A number is written in digits only. -/
theorem isDigit_of_mem_toDigits {n : Nat} {c : Char} (h : c ∈ Nat.toDigits 10 n) :
    isDigit c = true :=
  Nat.isDigit_of_mem_toDigits (by decide) (by decide) h

/-! ## The number of digits -/

/-- Every number has a digit, zero too. -/
theorem width_pos (n : Nat) : 0 < width n :=
  Nat.length_toDigits_pos

/-- A number is below the power of ten with as many zeros as it has digits. -/
theorem lt_pow_width (n : Nat) : n < 10 ^ width n :=
  (Nat.length_toDigits_le_iff (by decide) (width_pos n)).mp (Nat.le_refl _)

/-- A positive number is not below the power with one zero less. -/
theorem pow_width_le {n : Nat} (hn : 0 < n) : 10 ^ (width n - 1) ≤ n := by
  have hpos := width_pos n
  rcases Nat.eq_zero_or_pos (width n - 1) with hone | hmore
  · rw [hone]
    exact hn
  · apply Nat.le_of_not_lt
    intro hlt
    have hle : width n ≤ width n - 1 := (Nat.length_toDigits_le_iff (by decide) hmore).mpr hlt
    omega

/-- Only zero is written as the digit zero. -/
theorem digitChar_ne_zero : ∀ n < 10, n ≠ 0 → Nat.digitChar n ≠ '0' := by
  decide

/-- The first digit is not zero. -/
theorem head?_toDigits {n : Nat} (hn : 0 < n) : (Nat.toDigits 10 n).head? ≠ some '0' := by
  induction n using Nat.strongRecOn with
  | ind n ih =>
    rw [Nat.toDigits_eq_if (by decide)]
    split
    · next hlt =>
      intro h
      exact digitChar_ne_zero n hlt (Nat.ne_of_gt hn) (Option.some.inj h)
    · next hge =>
      have hfirst := List.head?_eq_some_head (Nat.toDigits_ne_nil (n := n / 10) (b := 10))
      have hne := ih (n / 10) (by omega) (by omega)
      rw [hfirst] at hne
      rwa [List.head?_append, hfirst, Option.some_or]

end IntervalDump.Decimal
