import IntervalDump.Proofs.Decimal.Nearest
import IntervalDump.Proofs.Json.Grammar
import IntervalDump.Proofs.Json.Printed
/-!
# Numbers survive their text

The text of a finite double is a number in the grammar (`NumberText.IsProper.isNumber`), and the
numeral with its parts is the double (`exists_parts`). The layouts only differ in where they put the
point: the digits are those of the shortest decimal, and zeros around them are taken back by the
exponent.
-/

namespace IntervalDump.Json

open Decimal (isDigit ofDigits)

/-! ## Parts -/

namespace NumberText

/-- The fraction as it is printed: none if there are no digits. -/
def fractionChars (digits : List Char) : List Char :=
  if digits = [] then [] else '.' :: digits

/-- The exponent as it is printed: none if there are no digits. -/
def exponentChars (negative : Bool) (digits : List Char) : List Char :=
  if digits = [] then [] else 'e' :: (if negative then '-' else '+') :: digits

/-- A number with these parts, without its sign. -/
def chars (n : NumberText) : List Char :=
  n.whole ++ (fractionChars n.fraction ++ exponentChars n.exponentNegative n.exponent)

/-- The parts are those of a number: digits, without needless zeros at the head. -/
structure IsProper (n : NumberText) : Prop where
  whole : n.whole = ['0'] ∨ n.whole ≠ [] ∧ n.whole.head? ≠ some '0'
  isDigit_whole : ∀ c ∈ n.whole, isDigit c = true
  isDigit_fraction : ∀ c ∈ n.fraction, isDigit c = true
  isDigit_exponent : ∀ c ∈ n.exponent, isDigit c = true
  exponentNegative : n.exponent = [] → n.exponentNegative = false

/-- A fraction that is printed is one. -/
theorem isFraction_chars {digits : List Char} (hdigits : ∀ c ∈ digits, isDigit c = true) :
    IsFraction digits (fractionChars digits) := by
  unfold fractionChars
  split
  · next hempty => rw [hempty]; exact .none
  · next hne => exact .digits ⟨hne, hdigits⟩

/-- An exponent that is printed is one. -/
theorem isExponent_chars {negative : Bool} {digits : List Char}
    (hdigits : ∀ c ∈ digits, isDigit c = true) (hnegative : digits = [] → negative = false) :
    IsExponent negative digits (exponentChars negative digits) := by
  unfold exponentChars
  split
  · next hempty => rw [hempty, hnegative hempty]; exact .none
  · next hne =>
    cases negative with
    | true => exact .digits (.inl rfl) .minus ⟨hne, hdigits⟩
    | false => exact .digits (.inl rfl) .plus ⟨hne, hdigits⟩

/-- **The text of proper parts is a number**, with or without a minus in front of it. -/
theorem IsProper.isNumber {n : NumberText} (hn : n.IsProper) (negative : Bool) :
    IsNumber negative n ((if negative then ['-'] else []) ++ n.chars) := by
  refine .parts ?_ (isFraction_chars hn.isDigit_fraction)
    (isExponent_chars hn.isDigit_exponent hn.exponentNegative)
  rcases hn.whole with hzero | ⟨hne, hhead⟩
  · rw [hzero]
    exact .zero
  · exact .digits ⟨hne, hn.isDigit_whole⟩ hhead

/-- The digits of a number as one whole number. -/
def significand (n : NumberText) : Nat :=
  ofDigits (n.whole ++ n.fraction)

/-- The exponent of ten of the last digit. -/
def place (n : NumberText) : Int :=
  (if n.exponentNegative then -(ofDigits n.exponent : Int) else ofDigits n.exponent) -
    n.fraction.length

/-- The numeral with these parts. -/
def numeral (negative : Bool) (n : NumberText) : Numeral :=
  ⟨negative, .finite n.significand n.place⟩

end NumberText

/-! ## Layouts -/

/-- The parts say the digits: they have their text and their value. -/
structure Says (n : NumberText) (d : Digits) : Prop where
  proper : n.IsProper
  chars_eq : n.chars = numberLayout.digitsText d
  value_eq : (n.significand : ℚ) * 10 ^ n.place = d.value

/-- Zeros behind the digits are made up for by the exponent. -/
theorem value_eq_of_zeros {n : NumberText} {d : Digits} (zeros : Nat)
    (hsignificand : n.significand = 10 ^ zeros * ofDigits d.digits)
    (hplace : n.place = d.exponent - d.digits.length + 1 - zeros) :
    (n.significand : ℚ) * 10 ^ n.place = d.value := by
  rw [hsignificand, hplace, Digits.value, zpow_sub₀ (by norm_num), zpow_natCast]
  push_cast
  field_simp

/-- Zeros that fill up are digits. -/
theorem isDigit_of_mem_replicate {n : Nat} {c : Char} (h : c ∈ List.replicate n '0') :
    isDigit c = true := by
  rw [List.eq_of_mem_replicate h]
  rfl

section Layout

variable {d : Digits} (hd : d.IsNormal)

/-- Near the point, numbers are printed without an exponent. -/
theorem digitsText_positional (hlayout : -5 ≤ d.exponent ∧ d.exponent ≤ 15) :
    numberLayout.digitsText d = Layout.positionalText true d := by
  obtain ⟨hge, hle⟩ := hlayout
  simp [Layout.digitsText, numberLayout, hge, hle]

include hd

/-- What begins as the digits do has no needless zero at its head. -/
theorem whole_of_head? {whole : List Char} (h : whole.head? = d.digits.head?) :
    whole = ['0'] ∨ whole ≠ [] ∧ whole.head? ≠ some '0' := by
  refine .inr ⟨?_, ?_⟩
  · rintro rfl
    exact hd.digits_ne (List.head?_eq_none_iff.mp h.symm)
  · rw [h]
    exact hd.head?_ne

/-- A number below one is printed with zeros behind the point. -/
theorem says_small (hlayout : -5 ≤ d.exponent ∧ d.exponent ≤ 15) (hsmall : d.exponent < 0) :
    Says ⟨['0'], List.replicate (-d.exponent - 1).toNat '0' ++ d.digits, false, []⟩ d where
  proper :=
    { whole := .inl rfl
      isDigit_whole := List.forall_mem_singleton.mpr rfl
      isDigit_fraction := by
        intro c hc
        rcases List.mem_append.mp hc with hc | hc
        · exact isDigit_of_mem_replicate hc
        · exact hd.isDigit c hc
      isDigit_exponent := by simp
      exponentNegative := fun _ => rfl }
  chars_eq := by
    rw [digitsText_positional hlayout, Layout.positionalText, if_pos hsmall]
    simp [NumberText.chars, NumberText.fractionChars, NumberText.exponentChars, hd.digits_ne]
  value_eq := by
    apply value_eq_of_zeros 0
    · rw [NumberText.significand, Decimal.ofDigits_append, Decimal.ofDigits_zeros_append]
      simp [ofDigits, Decimal.digitValue]
    · simp only [NumberText.place, List.length_append, List.length_replicate]
      simp [ofDigits]
      omega

/-- A number without a fraction is printed with zeros before the point, and one behind it. -/
theorem says_whole (hlayout : -5 ≤ d.exponent ∧ d.exponent ≤ 15) (hlarge : 0 ≤ d.exponent)
    (hdigits : d.digits.length ≤ d.exponent.toNat + 1) :
    Says ⟨d.digits ++ List.replicate (d.exponent.toNat + 1 - d.digits.length) '0', ['0'], false, []⟩
      d where
  proper :=
    { whole := whole_of_head? hd (List.head?_append_of_ne_nil _ hd.digits_ne)
      isDigit_whole := by
        intro c hc
        rcases List.mem_append.mp hc with hc | hc
        · exact hd.isDigit c hc
        · exact isDigit_of_mem_replicate hc
      isDigit_fraction := List.forall_mem_singleton.mpr rfl
      isDigit_exponent := by simp
      exponentNegative := fun _ => rfl }
  chars_eq := by
    rw [digitsText_positional hlayout, Layout.positionalText, if_neg (not_lt.mpr hlarge)]
    simp [NumberText.chars, NumberText.fractionChars, NumberText.exponentChars, hdigits]
  value_eq := by
    apply value_eq_of_zeros (d.exponent.toNat + 1 - d.digits.length + 1)
    · rw [NumberText.significand, Decimal.ofDigits_append, Decimal.ofDigits_append_zeros]
      simp [ofDigits, Decimal.digitValue, pow_succ]
      ring
    · simp [NumberText.place, ofDigits]
      omega

/-- A number with a fraction is printed with the point among its digits. -/
theorem says_pointed (hlayout : -5 ≤ d.exponent ∧ d.exponent ≤ 15) (hlarge : 0 ≤ d.exponent)
    (hdigits : ¬ d.digits.length ≤ d.exponent.toNat + 1) :
    Says ⟨d.digits.take (d.exponent.toNat + 1), d.digits.drop (d.exponent.toNat + 1), false, []⟩
      d where
  proper :=
    { whole := whole_of_head? hd (by rw [List.head?_take, if_neg (by omega)])
      isDigit_whole := fun c hc => hd.isDigit c (List.mem_of_mem_take hc)
      isDigit_fraction := fun c hc => hd.isDigit c (List.mem_of_mem_drop hc)
      isDigit_exponent := by simp
      exponentNegative := fun _ => rfl }
  chars_eq := by
    rw [digitsText_positional hlayout, Layout.positionalText, if_neg (not_lt.mpr hlarge)]
    simp [NumberText.chars, NumberText.fractionChars, NumberText.exponentChars, hdigits]
  value_eq := by
    apply value_eq_of_zeros 0
    · rw [NumberText.significand, List.take_append_drop, pow_zero, one_mul]
    · simp [NumberText.place, ofDigits]
      omega

/-- A number that is far from the point is printed with an exponent. -/
theorem says_scientific (hlayout : ¬ (-5 ≤ d.exponent ∧ d.exponent ≤ 15)) :
    Says ⟨d.digits.take 1, d.digits.drop 1, d.exponent < 0, Nat.toDigits 10 d.exponent.natAbs⟩
      d where
  proper :=
    { whole := whole_of_head? hd (by rw [List.head?_take, if_neg (by omega)])
      isDigit_whole := fun c hc => hd.isDigit c (List.mem_of_mem_take hc)
      isDigit_fraction := fun c hc => hd.isDigit c (List.mem_of_mem_drop hc)
      isDigit_exponent := fun c hc => Decimal.isDigit_of_mem_toDigits hc
      exponentNegative := fun h => absurd h Nat.toDigits_ne_nil }
  chars_eq := by
    have hpositional : numberLayout.positional d.exponent = false := by
      rw [← Bool.not_eq_true]
      simpa [numberLayout] using hlayout
    have hexponent : Nat.toDigits 10 d.exponent.natAbs ≠ [] := Nat.toDigits_ne_nil
    have hfraction : d.digits.drop 1 = [] ↔ d.digits.length ≤ 1 := List.drop_eq_nil_iff
    rw [Layout.digitsText, hpositional, if_neg Bool.false_ne_true, Layout.scientificText]
    simp only [NumberText.chars, NumberText.fractionChars, NumberText.exponentChars, hexponent,
      hfraction, if_false, decide_eq_true_eq, List.append_assoc]
  value_eq := by
    have hpos := List.length_pos_of_ne_nil hd.digits_ne
    apply value_eq_of_zeros 0
    · rw [NumberText.significand, List.take_append_drop, pow_zero, one_mul]
    · simp only [NumberText.place, Decimal.ofDigits_toDigits, List.length_drop, decide_eq_true_eq]
      split <;> omega

/-- Whichever way the digits are set out, there are parts that say them. -/
theorem exists_says : ∃ n, Says n d := by
  by_cases hlayout : -5 ≤ d.exponent ∧ d.exponent ≤ 15
  swap
  · exact ⟨_, says_scientific hd hlayout⟩
  by_cases hsmall : d.exponent < 0
  · exact ⟨_, says_small hd hlayout hsmall⟩
  by_cases hdigits : d.digits.length ≤ d.exponent.toNat + 1
  · exact ⟨_, says_whole hd hlayout (by omega) hdigits⟩
  · exact ⟨_, says_pointed hd hlayout (by omega) hdigits⟩

end Layout

section Signed

variable (layout : Layout) {bits : UInt64}

/-- Zero is printed as the digit, with a sign if it has one. -/
theorem bitsText_of_zero (h : bits.toNat % 2 ^ 63 = 0) :
    layout.bitsText bits = (if bits.toNat / 2 ^ 63 == 1 then ['-'] else []) ++
      '0' :: (if layout.pointZero then ['.', '0'] else []) := by
  simp only [beq_iff_eq]
  exact if_pos h

/-- Any other number is printed by its shortest digits. -/
theorem bitsText_of_ne_zero (h : bits.toNat % 2 ^ 63 ≠ 0) :
    layout.bitsText bits = (if bits.toNat / 2 ^ 63 == 1 then ['-'] else []) ++
      layout.digitsText ((Dyadic.ofBits bits).shortest layout.tie) := by
  simp only [beq_iff_eq]
  exact if_neg h

end Signed

/-- **The text of a finite double** is a number, and the double nearest to it is the same one. -/
theorem exists_parts {x : Float} (hfinite : x.isFinite = true) :
    ∃ n : NumberText, ∃ negative : Bool, n.IsProper ∧
      numberChars x = (if negative then ['-'] else []) ++ n.chars ∧
      (n.numeral negative).toFloat = x := by
  by_cases hzero : x.toBits.toNat % 2 ^ 63 = 0
  · refine ⟨⟨['0'], ['0'], false, []⟩, x.toBits.toNat / 2 ^ 63 == 1, ?_, ?_, ?_⟩
    · have hdigit : ∀ c ∈ ['0'], isDigit c = true := List.forall_mem_singleton.mpr rfl
      exact ⟨.inl rfl, hdigit, hdigit, by simp, fun _ => rfl⟩
    · rw [numberChars, if_pos hfinite, bitsText_of_zero numberLayout hzero]
      rfl
    · exact Numeral.toFloat_zero hfinite hzero _
  · rcases unpack_finite hfinite with ⟨hzero', -⟩ | ⟨-, hd, -⟩
    · exact absurd hzero' hzero
    obtain ⟨hnormal, hcovers⟩ := Dyadic.exists_shortest numberLayout.tie hd
    obtain ⟨n, hproper, hchars, hvalue⟩ := exists_says hnormal
    refine ⟨n, x.toBits.toNat / 2 ^ 63 == 1, hproper, ?_, ?_⟩
    · rw [numberChars, if_pos hfinite, bitsText_of_ne_zero numberLayout hzero, hchars]
    · rw [← hvalue] at hcovers
      exact Numeral.toFloat_eq hfinite hzero hcovers

end IntervalDump.Json
