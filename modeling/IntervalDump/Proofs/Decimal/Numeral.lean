import IntervalDump.Decimal.Numeral
import IntervalDump.Proofs.Json.Grammar
/-!
# The texts that are numerals

The grammar of numerals, apart from how they are read: a numeral is a sign that may be absent and
the text of a magnitude (`Numeral.IsText`), which is one of three words in any letter case or a
mantissa with an exponent that may be absent (`Magnitude.IsText`). Signs and exponents are those of
JSON numbers; the mantissa is freer, since zeros may stand before it and one side of its point may
be empty.

* **Reading is the grammar** (`Numeral.read?_eq_some_iff`): what is read is exactly a text of the
  grammar, as the numeral it stands for. Each part has a lemma of its own, up to the mantissa.
* **A numeral has few characters** (`Numeral.IsText.isNumeralChar`), all of them ASCII.
-/

namespace IntervalDump

open Decimal (isDigit ofDigits takeSign)
open Json (AreDigits EndsDigits IsSign IsExponent)

/-! ## Letters in either case -/

/-- Lower case, by the numbers of the characters. -/
theorem toNat_toLower (c : Char) :
    c.toLower.toNat = if 65 ≤ c.toNat ∧ c.toNat ≤ 90 then c.toNat + 32 else c.toNat := by
  unfold Char.toLower
  by_cases h : c.val ≥ 'A'.val ∧ c.val ≤ 'Z'.val
  · have hupper : 65 ≤ c.toNat ∧ c.toNat ≤ 90 := h
    rw [dif_pos h, if_pos hupper]
    show (c.val + 32).toNat = _
    rw [UInt32.toNat_add]
    show (c.toNat + 32) % 2 ^ 32 = _
    omega
  · have hother : ¬ (65 ≤ c.toNat ∧ c.toNat ≤ 90) := h
    rw [dif_neg h, if_neg hother]

/-- Upper case, by the numbers of the characters. -/
theorem toNat_toUpper (c : Char) :
    c.toUpper.toNat = if 97 ≤ c.toNat ∧ c.toNat ≤ 122 then c.toNat - 32 else c.toNat := by
  unfold Char.toUpper
  by_cases h : 'a'.val ≤ c.val ∧ c.val ≤ 'z'.val
  · have hlower : 97 ≤ c.toNat ∧ c.toNat ≤ 122 := h
    rw [dif_pos h, if_pos hlower]
    -- the difference of the two cases is negative, so it is added modulo the width of a word
    show (c.val + 4294967264).toNat = _
    rw [UInt32.toNat_add]
    show (c.toNat + 4294967264) % 2 ^ 32 = _
    omega
  · have hother : ¬ (97 ≤ c.toNat ∧ c.toNat ≤ 122) := h
    rw [dif_neg h, if_neg hother]

/-- Two characters have the same lower case: the small letter and its capital. -/
theorem toLower_eq_iff {c letter : Char} (h : 'a' ≤ letter ∧ letter ≤ 'z') :
    c.toLower = letter ↔ c = letter ∨ c = letter.toUpper := by
  have hletter : 97 ≤ letter.toNat ∧ letter.toNat ≤ 122 := h
  rw [← Char.toNat_inj, ← Char.toNat_inj, ← Char.toNat_inj, toNat_toLower, toNat_toUpper,
    if_pos hletter]
  split_ifs <;> omega

/-- The text is the word, with each letter in lower or in upper case. -/
def SpellsWord (text word : List Char) : Prop :=
  List.Forall₂ (fun c letter => c = letter ∨ c = letter.toUpper) text word

/-- A word in lower case is spelled with small letters and capitals. -/
theorem map_toLower_eq_iff {text word : List Char}
    (hword : ∀ letter ∈ word, 'a' ≤ letter ∧ letter ≤ 'z') :
    text.map Char.toLower = word ↔ SpellsWord text word := by
  induction word generalizing text with
  | nil => rw [List.map_eq_nil_iff, SpellsWord, List.forall₂_nil_right_iff]
  | cons letter word ih =>
    obtain ⟨hletter, hrest⟩ := List.forall_mem_cons.mp hword
    cases text with
    | nil => simp [SpellsWord]
    | cons c text =>
      rw [List.map_cons, List.cons.injEq, toLower_eq_iff hletter, ih hrest, SpellsWord,
        SpellsWord, List.forall₂_cons]

/-! ## Signs -/

/-- Taking a sign takes one if it is there. -/
theorem exists_sign {text rest : List Char} {negative : Bool}
    (h : takeSign text = (negative, rest)) : ∃ sign, IsSign negative sign ∧ text = sign ++ rest := by
  unfold takeSign at h
  split at h <;> cases h
  · exact ⟨['+'], .plus, rfl⟩
  · exact ⟨['-'], .minus, rfl⟩
  · exact ⟨[], .none, rfl⟩

/-- A sign is taken if what is behind it does not begin with one. -/
theorem takeSign_append {negative : Bool} {sign rest : List Char} (h : IsSign negative sign)
    (hrest : ∀ c ∈ rest.head?, c ≠ '+' ∧ c ≠ '-') : takeSign (sign ++ rest) = (negative, rest) := by
  cases h with
  | plus => rfl
  | minus => rfl
  | none =>
    rw [List.nil_append]
    unfold takeSign
    split
    · exact absurd rfl (hrest '+' rfl).1
    · exact absurd rfl (hrest '-' rfl).2
    · rfl

/-- The digits stand in a row. -/
theorem toNat_of_isDigit {c : Char} (h : isDigit c = true) : 48 ≤ c.toNat ∧ c.toNat ≤ 57 := by
  simpa [isDigit, Char.le_def, UInt32.le_iff_toNat_le] using h

/-- No digit is a sign. -/
theorem ne_sign_of_isDigit {c : Char} (h : isDigit c = true) : c ≠ '+' ∧ c ≠ '-' := by
  constructor
  · rintro rfl
    contradiction
  · rintro rfl
    contradiction

/-- Digits do not begin with a sign. -/
theorem ne_sign_of_areDigits {digits : List Char} (h : AreDigits digits) :
    ∀ c ∈ digits.head?, c ≠ '+' ∧ c ≠ '-' :=
  fun c hc => ne_sign_of_isDigit (h.isDigit c (List.mem_of_mem_head? hc))

/-! ## The grammar -/

/-- Digits with at most one point among them, and at least one digit. The first two lists are the
digits before the point and those behind it. -/
inductive IsMantissa : List Char → List Char → List Char → Prop where
  | whole {whole : List Char} (h : AreDigits whole) : IsMantissa whole [] whole
  | pointed {whole fraction : List Char} (hwhole : ∀ c ∈ whole, isDigit c = true)
      (hfraction : ∀ c ∈ fraction, isDigit c = true) (hne : whole ≠ [] ∨ fraction ≠ []) :
      IsMantissa whole fraction (whole ++ '.' :: fraction)

/-- The exponent with this sign and these digits. -/
def Numeral.signedExponent (negative : Bool) (digits : List Char) : Int :=
  if negative then -(exponentOf digits : Int) else exponentOf digits

/-- The text of a magnitude. -/
inductive Magnitude.IsText : Magnitude → List Char → Prop where
  | infinite {text : List Char}
      (h : SpellsWord text ['i', 'n', 'f'] ∨
        SpellsWord text ['i', 'n', 'f', 'i', 'n', 'i', 't', 'y']) : IsText .infinite text
  | notANumber {text : List Char} (h : SpellsWord text ['n', 'a', 'n']) : IsText .notANumber text
  | finite {whole fraction mantissa digits exponent : List Char} {negative : Bool}
      (hmantissa : IsMantissa whole fraction mantissa)
      (hexponent : IsExponent negative digits exponent) :
      IsText (.finite (ofDigits (whole ++ fraction))
        (Numeral.signedExponent negative digits - fraction.length)) (mantissa ++ exponent)

/-- The text of a numeral. -/
inductive Numeral.IsText : Numeral → List Char → Prop where
  | signed {negative : Bool} {magnitude : Magnitude} {sign text : List Char}
      (hsign : IsSign negative sign) (h : magnitude.IsText text) :
      IsText ⟨negative, magnitude⟩ (sign ++ text)

/-- A text of the grammar, whatever its value. -/
def IsNumeral (text : List Char) : Prop :=
  ∃ n : Numeral, n.IsText text

/-- Neither the digits nor those of the exponent are limited. -/
example (n m : Nat) :
    IsNumeral (List.replicate (n + 1) '9' ++ 'e' :: List.replicate (m + 1) '9') := by
  have hnines (k : Nat) : AreDigits (List.replicate (k + 1) '9') := by
    refine ⟨by simp [List.replicate_succ], fun c hc => ?_⟩
    rw [List.eq_of_mem_replicate hc]
    rfl
  have htext := Magnitude.IsText.finite (.whole (hnines n)) (.digits (.inl rfl) .none (hnines m))
  have hnumeral := Numeral.IsText.signed .none htext
  exact ⟨_, hnumeral⟩

/-! ## Mantissas and exponents are read -/

/-- A mantissa has a digit or a point. -/
theorem IsMantissa.ne_nil {whole fraction mantissa : List Char}
    (h : IsMantissa whole fraction mantissa) : mantissa ≠ [] := by
  cases h with
  | whole h => exact h.ne_nil
  | pointed => simp

/-- A mantissa is made of digits and a point. -/
theorem IsMantissa.isDigit_or {whole fraction mantissa : List Char}
    (h : IsMantissa whole fraction mantissa) : ∀ c ∈ mantissa, isDigit c = true ∨ c = '.' := by
  intro c hc
  cases h with
  | whole h => exact .inl (h.isDigit c hc)
  | pointed hwhole hfraction =>
    rcases List.mem_append.mp hc with hc | hc
    · exact .inl (hwhole c hc)
    · rcases List.mem_cons.mp hc with rfl | hc
      · exact .inr rfl
      · exact .inl (hfraction c hc)

namespace Numeral

/-- **What is read as an exponent** is the letter, a sign and digits, or nothing. -/
theorem readExponent?_eq_some_iff {text : List Char} {exponent : Int} :
    readExponent? text = some exponent ↔
      ∃ negative digits, IsExponent negative digits text ∧
        signedExponent negative digits = exponent := by
  constructor
  · intro h
    cases text with
    | nil =>
      cases h
      exact ⟨false, [], .none, rfl⟩
    | cons mark rest =>
      rcases htake : takeSign rest with ⟨negative, digits⟩
      obtain ⟨sign, hsign, rfl⟩ := exists_sign htake
      simp only [readExponent?, htake] at h
      split_ifs at h with hmark hdigits hnegative
      all_goals
        obtain ⟨hne, hall⟩ := not_or.mp hdigits
        have hareDigits : AreDigits digits := ⟨by simpa using hne, by simpa using hall⟩
        cases h
        refine ⟨negative, digits, .digits hmark hsign hareDigits, ?_⟩
        simp only [signedExponent, hnegative]
        rfl
  · rintro ⟨negative, digits, h, rfl⟩
    cases h with
    | none => rfl
    | digits hmark hsign hdigits =>
      have hempty : ¬ (digits.isEmpty = true ∨ (!digits.all isDigit) = true) := by
        simp only [List.isEmpty_iff, Bool.not_eq_true', not_or, Bool.not_eq_false, List.all_eq_true]
        exact ⟨hdigits.ne_nil, hdigits.isDigit⟩
      simp only [readExponent?, if_pos hmark, takeSign_append hsign (ne_sign_of_areDigits hdigits),
        if_neg hempty, signedExponent]
      cases negative <;> rfl

/-- What is behind the digits at the head, as a fraction and the rest. -/
theorem readDecimal?_eq {whole fraction rest text : List Char}
    (hwhole : text.takeWhile isDigit = whole)
    (hfraction : takeFraction (text.dropWhile isDigit) = (fraction, rest)) :
    readDecimal? text =
      if whole.isEmpty ∧ fraction.isEmpty then none
      else (readExponent? rest).map fun exponent =>
        .finite (ofDigits (whole ++ fraction)) (exponent - fraction.length) := by
  simp only [readDecimal?, hwhole, hfraction]

/-- **A mantissa and an exponent are read as their parts.** -/
theorem readDecimal?_append {whole fraction mantissa digits exponent : List Char} {negative : Bool}
    (hmantissa : IsMantissa whole fraction mantissa)
    (hexponent : IsExponent negative digits exponent) :
    readDecimal? (mantissa ++ exponent) =
      some (.finite (ofDigits (whole ++ fraction))
        (signedExponent negative digits - fraction.length)) := by
  have hread : readExponent? exponent = some (signedExponent negative digits) :=
    readExponent?_eq_some_iff.mpr ⟨negative, digits, hexponent, rfl⟩
  have hends : EndsDigits exponent := by simpa using hexponent.endsDigits .nil
  cases hmantissa with
  | whole h =>
    have hpoint : exponent.head? ≠ some '.' := by simpa using hexponent.head?_ne .nil
    have hfraction : takeFraction ((whole ++ exponent).dropWhile isDigit) = ([], exponent) := by
      rw [Json.dropWhile_digits hends h.isDigit]
      unfold takeFraction
      split
      · exact absurd rfl hpoint
      · rfl
    rw [readDecimal?_eq (Json.takeWhile_digits hends h.isDigit) hfraction, if_neg, hread]
    · rfl
    · simp [h.ne_nil]
  | pointed hwhole hdigits hne =>
    have hpointed : EndsDigits ('.' :: (fraction ++ exponent)) := .cons rfl _
    have hfraction : takeFraction ((whole ++ '.' :: (fraction ++ exponent)).dropWhile isDigit) =
        (fraction, exponent) := by
      rw [Json.dropWhile_digits hpointed hwhole, takeFraction, Json.takeWhile_digits hends hdigits,
        Json.dropWhile_digits hends hdigits]
    rw [List.append_assoc, List.cons_append,
      readDecimal?_eq (Json.takeWhile_digits hpointed hwhole) hfraction, if_neg, hread]
    · rfl
    · rw [List.isEmpty_iff, List.isEmpty_iff]
      exact not_and_or.mpr hne

/-- What is taken while it is a digit is made of digits. -/
theorem isDigit_of_mem_takeWhile {text : List Char} :
    ∀ c ∈ text.takeWhile isDigit, isDigit c = true :=
  List.all_eq_true.mp List.all_takeWhile

/-- The digits at the head and what `takeFraction` finds behind them make a mantissa, unless there
are none. -/
theorem exists_mantissa {text fraction rest : List Char}
    (hfraction : takeFraction (text.dropWhile isDigit) = (fraction, rest))
    (hne : ¬ ((text.takeWhile isDigit).isEmpty ∧ fraction.isEmpty)) :
    ∃ mantissa, IsMantissa (text.takeWhile isDigit) fraction mantissa ∧
      text = mantissa ++ rest := by
  have hsplit : text = text.takeWhile isDigit ++ text.dropWhile isDigit :=
    List.takeWhile_append_dropWhile.symm
  rw [List.isEmpty_iff, List.isEmpty_iff, not_and_or] at hne
  unfold takeFraction at hfraction
  split at hfraction
  · next behind hpoint =>
    obtain ⟨rfl, rfl⟩ := Prod.mk.inj hfraction
    refine ⟨_, .pointed isDigit_of_mem_takeWhile isDigit_of_mem_takeWhile hne, ?_⟩
    rw [List.append_assoc, List.cons_append, List.takeWhile_append_dropWhile, ← hpoint]
    exact hsplit
  · obtain ⟨rfl, rfl⟩ := Prod.mk.inj hfraction
    have hwhole : text.takeWhile isDigit ≠ [] := by simpa using hne
    exact ⟨_, .whole ⟨hwhole, isDigit_of_mem_takeWhile⟩, hsplit⟩

/-- What is read as a decimal is one. -/
theorem isText_of_readDecimal? {text : List Char} {magnitude : Magnitude}
    (h : readDecimal? text = some magnitude) : magnitude.IsText text := by
  rcases hfraction : takeFraction (text.dropWhile isDigit) with ⟨fraction, rest⟩
  rw [readDecimal?_eq rfl hfraction] at h
  split_ifs at h with hempty
  obtain ⟨mantissa, hmantissa, hsplit⟩ := exists_mantissa hfraction hempty
  obtain ⟨exponent, hexponent, rfl⟩ := Option.map_eq_some_iff.mp h
  obtain ⟨negative, digits, hgrammar, rfl⟩ := readExponent?_eq_some_iff.mp hexponent
  have htext := Magnitude.IsText.finite hmantissa hgrammar
  rwa [← hsplit] at htext

/-! ## Magnitudes and numerals are read -/

/-- The short word for infinity is in small letters. -/
theorem isLower_inf : ∀ letter ∈ ['i', 'n', 'f'], 'a' ≤ letter ∧ letter ≤ 'z' := by simp

/-- The long word for infinity is in small letters. -/
theorem isLower_infinity :
    ∀ letter ∈ ['i', 'n', 'f', 'i', 'n', 'i', 't', 'y'], 'a' ≤ letter ∧ letter ≤ 'z' := by simp

/-- The word for no number is in small letters. -/
theorem isLower_nan : ∀ letter ∈ ['n', 'a', 'n'], 'a' ≤ letter ∧ letter ≤ 'z' := by simp

/-- A mantissa begins with no letter. -/
theorem map_toLower_ne {whole fraction mantissa : List Char}
    (h : IsMantissa whole fraction mantissa) (exponent : List Char) (letter : Char)
    (hletter : 'a' ≤ letter ∧ letter ≤ 'z') (word : List Char) :
    (mantissa ++ exponent).map Char.toLower ≠ letter :: word := by
  obtain ⟨c, rest, rfl⟩ := List.exists_cons_of_ne_nil h.ne_nil
  intro heq
  have hc : c.toLower.toNat = letter.toNat := congrArg Char.toNat (List.cons.inj heq).1
  have hbounds : 97 ≤ letter.toNat ∧ letter.toNat ≤ 122 := hletter
  rw [toNat_toLower] at hc
  rcases h.isDigit_or c List.mem_cons_self with hdigit | rfl
  · have hrange := toNat_of_isDigit hdigit
    split_ifs at hc <;> omega
  · have hpoint : ('.' : Char).toNat = 46 := rfl
    rw [hpoint] at hc
    split_ifs at hc <;> omega

/-- **What is read as a magnitude** is a decimal or one of the words. -/
theorem readMagnitude?_eq_some_iff {text : List Char} {magnitude : Magnitude} :
    readMagnitude? text = some magnitude ↔ magnitude.IsText text := by
  constructor
  · intro h
    simp only [readMagnitude?] at h
    split_ifs at h with hinfinite hnan
    · cases h
      rw [map_toLower_eq_iff isLower_inf, map_toLower_eq_iff isLower_infinity] at hinfinite
      exact .infinite hinfinite
    · cases h
      rw [map_toLower_eq_iff isLower_nan] at hnan
      exact .notANumber hnan
    · exact isText_of_readDecimal? h
  · intro h
    cases h with
    | infinite h =>
      rw [← map_toLower_eq_iff isLower_inf, ← map_toLower_eq_iff isLower_infinity] at h
      simp only [readMagnitude?, if_pos h]
    | notANumber h =>
      rw [← map_toLower_eq_iff isLower_nan] at h
      simp [readMagnitude?, h]
    | @finite _ _ _ _ exponent _ hmantissa hexponent =>
      have hi := map_toLower_ne hmantissa exponent 'i' (by decide)
      have hn := map_toLower_ne hmantissa exponent 'n' (by decide)
      simp only [readMagnitude?, hi, hn, or_self, if_false, readDecimal?_append hmantissa hexponent]

/-- No magnitude begins with a sign. -/
theorem ne_sign_of_isText {magnitude : Magnitude} {text : List Char} (h : magnitude.IsText text) :
    ∀ c ∈ text.head?, c ≠ '+' ∧ c ≠ '-' := by
  have hword {letter : Char} {word : List Char} (hspells : SpellsWord text (letter :: word))
      (hletter : (letter ≠ '+' ∧ letter ≠ '-') ∧ letter.toUpper ≠ '+' ∧ letter.toUpper ≠ '-') :
      ∀ c ∈ text.head?, c ≠ '+' ∧ c ≠ '-' := by
    obtain ⟨c, rest, hc, -, rfl⟩ := List.forall₂_cons_right_iff.mp hspells
    rintro d ⟨⟩
    rcases hc with rfl | rfl
    · exact hletter.1
    · exact hletter.2
  cases h with
  | infinite h => rcases h with h | h <;> exact hword h (by decide)
  | notANumber h => exact hword h (by decide)
  | finite hmantissa =>
    obtain ⟨c, rest, rfl⟩ := List.exists_cons_of_ne_nil hmantissa.ne_nil
    rintro d ⟨⟩
    rcases hmantissa.isDigit_or c List.mem_cons_self with hdigit | rfl
    · exact ne_sign_of_isDigit hdigit
    · decide

/-- **What is read as a numeral is exactly a text of the grammar.** -/
theorem read?_eq_some_iff {text : List Char} {n : Numeral} :
    read? text = some n ↔ n.IsText text := by
  constructor
  · intro h
    rcases htake : takeSign text with ⟨negative, rest⟩
    obtain ⟨sign, hsign, rfl⟩ := exists_sign htake
    simp only [read?, htake] at h
    obtain ⟨magnitude, hmagnitude, rfl⟩ := Option.map_eq_some_iff.mp h
    exact .signed hsign (readMagnitude?_eq_some_iff.mp hmagnitude)
  · intro h
    cases h with
    | signed hsign h =>
      have hread := readMagnitude?_eq_some_iff.mpr h
      simp only [read?, takeSign_append hsign (ne_sign_of_isText h), hread, Option.map_some]

/-! ## The characters of numerals -/

/-- A character that numerals are made of. -/
def isNumeralChar (c : Char) : Bool :=
  isDigit c || ['+', '-', '.', 'e', 'E'].contains c ||
    ['a', 'f', 'i', 'n', 't', 'y'].contains c.toLower

/-- A digit occurs in numerals. -/
theorem isNumeralChar_of_isDigit {c : Char} (h : isDigit c = true) : isNumeralChar c = true := by
  rw [isNumeralChar, h, Bool.true_or, Bool.true_or]

/-- A word occurs in numerals if its letters do in both cases. -/
theorem isNumeralChar_of_spellsWord {text word : List Char} (h : SpellsWord text word)
    (hword : word.all fun letter => isNumeralChar letter && isNumeralChar letter.toUpper) :
    ∀ c ∈ text, isNumeralChar c = true := by
  induction h with
  | nil => exact fun c hc => absurd hc List.not_mem_nil
  | cons hc h ih =>
    rw [List.all_cons, Bool.and_eq_true, Bool.and_eq_true] at hword
    obtain ⟨⟨hlower, hupper⟩, hrest⟩ := hword
    refine List.forall_mem_cons.mpr ⟨?_, ih hrest⟩
    rcases hc with rfl | rfl
    · exact hlower
    · exact hupper

/-- Signs occur in numerals. -/
theorem isNumeralChar_of_isSign {negative : Bool} {sign : List Char} (h : IsSign negative sign) :
    ∀ c ∈ sign, isNumeralChar c = true := by
  refine List.all_eq_true.mp ?_
  cases h <;> decide

/-- The letter, the sign and the digits of an exponent occur in numerals. -/
theorem isNumeralChar_of_isExponent {negative : Bool} {digits exponent : List Char}
    (h : IsExponent negative digits exponent) : ∀ c ∈ exponent, isNumeralChar c = true := by
  cases h with
  | none => exact fun c hc => absurd hc List.not_mem_nil
  | digits hmark hsign hdigits =>
    refine List.forall_mem_cons.mpr ⟨by rcases hmark with rfl | rfl <;> decide, ?_⟩
    refine List.forall_mem_append.mpr ⟨isNumeralChar_of_isSign hsign, ?_⟩
    exact fun c hc => isNumeralChar_of_isDigit (hdigits.isDigit c hc)

/-- The digits and the point of a mantissa occur in numerals. -/
theorem isNumeralChar_of_isMantissa {whole fraction mantissa : List Char}
    (h : IsMantissa whole fraction mantissa) : ∀ c ∈ mantissa, isNumeralChar c = true := by
  intro c hc
  rcases h.isDigit_or c hc with hdigit | rfl
  · exact isNumeralChar_of_isDigit hdigit
  · decide

/-- **A numeral has no other characters.** -/
theorem isNumeralChar_of_isText {magnitude : Magnitude} {text : List Char}
    (h : magnitude.IsText text) : ∀ c ∈ text, isNumeralChar c = true := by
  cases h with
  | infinite h => rcases h with h | h <;> exact isNumeralChar_of_spellsWord h (by decide)
  | notANumber h => exact isNumeralChar_of_spellsWord h (by decide)
  | finite hmantissa hexponent =>
    exact List.forall_mem_append.mpr
      ⟨isNumeralChar_of_isMantissa hmantissa, isNumeralChar_of_isExponent hexponent⟩

/-- **Nothing but these characters stands in a numeral.** -/
theorem IsText.isNumeralChar {n : Numeral} {text : List Char} (h : n.IsText text) :
    ∀ c ∈ text, isNumeralChar c = true := by
  cases h with
  | signed hsign h =>
    exact List.forall_mem_append.mpr ⟨isNumeralChar_of_isSign hsign, isNumeralChar_of_isText h⟩

/-- They are ASCII, and none of them is blank. -/
theorem bounds_of_isNumeralChar {c : Char} (h : isNumeralChar c = true) :
    0x20 < c.toNat ∧ c.toNat < 0x80 := by
  have hletter {letter : Char} (hlower : 'a' ≤ letter ∧ letter ≤ 'z') (hc : c.toLower = letter) :
      0x20 < c.toNat ∧ c.toNat < 0x80 := by
    have hnat : c.toLower.toNat = letter.toNat := congrArg Char.toNat hc
    have hbounds : 97 ≤ letter.toNat ∧ letter.toNat ≤ 122 := hlower
    rw [toNat_toLower] at hnat
    split_ifs at hnat <;> omega
  simp only [isNumeralChar, Bool.or_eq_true, List.contains_iff_mem] at h
  rcases h with (hdigit | hmark) | hword
  · have hrange : 48 ≤ c.toNat ∧ c.toNat ≤ 57 := toNat_of_isDigit hdigit
    omega
  · have hmarks : ∀ c ∈ ['+', '-', '.', 'e', 'E'], 0x20 < c.toNat ∧ c.toNat < 0x80 := by simp
    exact hmarks c hmark
  · have hlower : ∀ letter ∈ ['a', 'f', 'i', 'n', 't', 'y'], 'a' ≤ letter ∧ letter ≤ 'z' := by
      simp
    exact hletter (hlower _ hword) rfl

end Numeral

end IntervalDump
