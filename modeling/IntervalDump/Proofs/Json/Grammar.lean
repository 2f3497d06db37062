import IntervalDump.Proofs.Json.Reading
/-!
# The grammar of JSON

What a JSON text is, without what it says: `IsNumber` for numbers with their parts, `IsJson` for
values of any depth. A number of the grammar is read as its parts (`IsNumber.readNumber_eq`), one
part after the other, each under a condition on what is behind it.
-/

namespace IntervalDump.Json

open Decimal (isDigit)

/-! ## Digits -/

/-- The text does not begin with a digit. -/
def EndsDigits (s : List Char) : Prop :=
  ∀ c ∈ s.head?, isDigit c = false

/-- Where another character follows, no digit does. -/
theorem EndsDigits.cons {c : Char} (h : isDigit c = false) (s : List Char) :
    EndsDigits (c :: s) := by
  intro d hd
  obtain rfl := Option.some.inj hd
  exact h

/-- Nothing that may stand behind a value goes on a number. -/
theorem not_of_isDelimiter {c : Char} (h : isDelimiter c = true) :
    isDigit c = false ∧ c ≠ '.' ∧ ¬ (c = 'e' ∨ c = 'E') := by
  simp only [isDelimiter, isBlank, Bool.or_eq_true, beq_iff_eq] at h
  rcases h with ((((((rfl | rfl) | rfl) | rfl) | rfl) | rfl) | rfl) <;> decide

/-- What stands behind a value is no digit. -/
theorem Delimits.endsDigits {s : List Char} (h : Delimits s) : EndsDigits s :=
  fun c hc => (not_of_isDelimiter (h c hc)).1

/-- Digits, and at least one. -/
structure AreDigits (s : List Char) : Prop where
  ne_nil : s ≠ []
  isDigit : ∀ c ∈ s, isDigit c = true

section Digits

variable {digits s : List Char} (hs : EndsDigits s)
include hs

/-- Digits are taken up to the first character that is none. -/
theorem takeWhile_digits (hdigits : ∀ c ∈ digits, isDigit c = true) :
    (digits ++ s).takeWhile isDigit = digits := by
  rw [List.takeWhile_append_of_pos hdigits]
  cases s with
  | nil => rw [List.takeWhile_nil, List.append_nil]
  | cons c s => rw [List.takeWhile_cons_of_neg (by simp [hs c rfl]), List.append_nil]

/-- What is left of digits begins with the first character that is none. -/
theorem dropWhile_digits (hdigits : ∀ c ∈ digits, isDigit c = true) :
    (digits ++ s).dropWhile isDigit = s := by
  rw [List.dropWhile_append_of_pos hdigits]
  cases s with
  | nil => rfl
  | cons c s => rw [List.dropWhile_cons_of_neg (by simp [hs c rfl])]

/-- A run of digits is read to its end. -/
theorem AreDigits.readDigits_eq (h : AreDigits digits) (early : Fault) :
    readDigits early (digits ++ s) = .ok (digits, s) := by
  obtain ⟨hne, hdigits⟩ := h
  obtain ⟨c, digits, rfl⟩ := List.exists_cons_of_ne_nil hne
  obtain ⟨hc, hrest⟩ := List.forall_mem_cons.mp hdigits
  simp only [readDigits, List.cons_append, hc, if_true, takeWhile_digits hs hrest,
    dropWhile_digits hs hrest]

end Digits

/-! ## Numbers -/

/-- A zero alone, or digits that do not begin with one. -/
inductive IsWhole : List Char → Prop where
  | zero : IsWhole ['0']
  | digits {s : List Char} (h : AreDigits s) (hhead : s.head? ≠ some '0') : IsWhole s

/-- The digits behind a point, if there is one, with their text. -/
inductive IsFraction : List Char → List Char → Prop where
  | none : IsFraction [] []
  | digits {s : List Char} (h : AreDigits s) : IsFraction s ('.' :: s)

/-- The sign of an exponent; `true` is a minus. -/
inductive IsSign : Bool → List Char → Prop where
  | none : IsSign false []
  | plus : IsSign false ['+']
  | minus : IsSign true ['-']

/-- The sign and the digits of an exponent, if there is one, with their text. -/
inductive IsExponent : Bool → List Char → List Char → Prop where
  | none : IsExponent false [] []
  | digits {mark : Char} {negative : Bool} {sign s : List Char} (hmark : mark = 'e' ∨ mark = 'E')
      (hsign : IsSign negative sign) (h : AreDigits s) :
      IsExponent negative s (mark :: (sign ++ s))

/-- The text of a number with these parts. -/
inductive IsNumber (negative : Bool) (n : NumberText) : List Char → Prop where
  | parts {fraction exponent : List Char} (hwhole : IsWhole n.whole)
      (hfraction : IsFraction n.fraction fraction)
      (hexponent : IsExponent n.exponentNegative n.exponent exponent) :
      IsNumber negative n
        ((if negative then ['-'] else []) ++ (n.whole ++ (fraction ++ exponent)))

/-- A whole part is a run of digits. -/
theorem IsWhole.areDigits {s : List Char} (h : IsWhole s) : AreDigits s := by
  cases h with
  | zero => exact ⟨List.cons_ne_nil _ _, List.forall_mem_singleton.mpr rfl⟩
  | digits h => exact h

/-- **A whole part is read to its end.** -/
theorem IsWhole.readWhole_eq {whole s : List Char} (h : IsWhole whole) (hs : EndsDigits s)
    (early : Fault) : readWhole early (whole ++ s) = .ok (whole, s) := by
  cases h with
  | zero =>
    have hnone : (s.head?.map isDigit).getD false = false := by
      cases s with
      | nil => rfl
      | cons c s => exact hs c rfl
    simp only [readWhole, List.cons_append, List.nil_append, hnone, Bool.false_eq_true, if_false]
  | digits h hhead =>
    obtain ⟨c, digits, rfl⟩ := List.exists_cons_of_ne_nil h.ne_nil
    have hzero : c ≠ '0' := by
      rintro rfl
      exact hhead rfl
    -- Behind a digit that is not a zero, digits are read as everywhere else.
    rw [← h.readDigits_eq hs early, List.cons_append, readWhole.eq_def]
    split
    · contradiction
    · next heq => exact absurd (List.cons.inj heq).1 hzero
    · next heq =>
      obtain ⟨rfl, rfl⟩ := List.cons.inj heq
      rfl

section Fraction

variable {digits text s : List Char} (h : IsFraction digits text) (hs : EndsDigits s)
include h hs

/-- No digit follows on a fraction, or where it is missing. -/
theorem IsFraction.endsDigits : EndsDigits (text ++ s) := by
  cases h with
  | none => exact hs
  | digits h => exact .cons rfl _

/-- **A fraction is read to its end**, or found to be missing. -/
theorem IsFraction.readFraction_eq (hpoint : s.head? ≠ some '.') (early : Fault) :
    readFraction early (text ++ s) = .ok (digits, s) := by
  cases h with
  | none =>
    rw [List.nil_append]
    unfold readFraction
    split
    · exact absurd rfl hpoint
    · rfl
  | digits h => exact h.readDigits_eq hs early

end Fraction

/-- A sign is taken, if there is one. -/
theorem IsSign.takeSign_eq {negative : Bool} {sign digits : List Char} (h : IsSign negative sign)
    (hdigits : AreDigits digits) (s : List Char) :
    Decimal.takeSign (sign ++ (digits ++ s)) = (negative, digits ++ s) := by
  cases h with
  | plus => rfl
  | minus => rfl
  | none =>
    obtain ⟨hne, hdigits⟩ := hdigits
    obtain ⟨c, digits, rfl⟩ := List.exists_cons_of_ne_nil hne
    have hc := hdigits c List.mem_cons_self
    rw [List.nil_append, List.cons_append]
    unfold Decimal.takeSign
    split
    · next heq => rw [(List.cons.inj heq).1] at hc; contradiction
    · next heq => rw [(List.cons.inj heq).1] at hc; contradiction
    · rfl

section Exponent

variable {negative : Bool} {digits text rest : List Char} (h : IsExponent negative digits text)
  (hrest : Delimits rest)
include h hrest

/-- No digit follows on an exponent, or where it is missing. -/
theorem IsExponent.endsDigits : EndsDigits (text ++ rest) := by
  cases h with
  | none => exact hrest.endsDigits
  | digits hmark => rcases hmark with rfl | rfl <;> exact .cons rfl _

/-- Neither the exponent nor what is behind the number begins with a point. -/
theorem IsExponent.head?_ne : (text ++ rest).head? ≠ some '.' := by
  cases h with
  | none =>
    intro hhead
    exact (not_of_isDelimiter (hrest '.' hhead)).2.1 rfl
  | digits hmark => rcases hmark with rfl | rfl <;> simp

/-- **An exponent is read to its end**, or found to be missing. -/
theorem IsExponent.readExponent_eq (early : Fault) :
    readExponent early (text ++ rest) = .ok ((negative, digits), rest) := by
  cases h with
  | none =>
    cases rest with
    | nil => rfl
    | cons c rest =>
      rw [List.nil_append, readExponent, if_neg (not_of_isDelimiter (hrest c rfl)).2.2]
  | digits hmark hsign hdigits =>
    rw [List.cons_append, List.append_assoc]
    simp only [readExponent, if_pos hmark, hsign.takeSign_eq hdigits,
      hdigits.readDigits_eq hrest.endsDigits]

end Exponent

section Number

variable {negative : Bool} {n : NumberText} {s : List Char} (h : IsNumber negative n s)
include h

/-- A number begins with its minus or with a digit. -/
theorem IsNumber.exists_head :
    ∃ c t, s = c :: t ∧ startsNumber c = true ∧ (c == '-') = negative := by
  cases h with
  | parts hwhole =>
    obtain ⟨hne, hdigits⟩ := hwhole.areDigits
    obtain ⟨c, t, hcons⟩ := List.exists_cons_of_ne_nil hne
    have hc : isDigit c = true := hdigits c (by rw [hcons]; exact List.mem_cons_self)
    cases negative with
    | true => exact ⟨'-', _, rfl, rfl, rfl⟩
    | false =>
      refine ⟨c, _, by rw [hcons]; rfl, by rw [startsNumber, hc, Bool.or_true], ?_⟩
      rw [beq_eq_false_iff_ne]
      rintro rfl
      contradiction

/-- **A number is read as its parts.** -/
theorem IsNumber.readNumber_eq {rest : List Char} (hrest : Delimits rest) (early : Fault) :
    readNumber early (s ++ rest) = .ok (n, rest) := by
  obtain ⟨c, t, hhead, -, hminus⟩ := h.exists_head
  cases h with
  | @parts fraction exponent hwhole hfraction hexponent =>
    have hpass : passMinus (((if negative then ['-'] else []) ++ (n.whole ++
        (fraction ++ exponent))) ++ rest) = n.whole ++ (fraction ++ (exponent ++ rest)) := by
      simp only [List.append_assoc]
      cases negative with
      | true => rfl
      | false =>
        have hne : c ≠ '-' := beq_eq_false_iff_ne.mp hminus
        simp only [Bool.false_eq_true, if_false, List.nil_append] at hhead ⊢
        have happend : n.whole ++ (fraction ++ (exponent ++ rest)) = c :: (t ++ rest) := by
          rw [← List.cons_append, ← hhead]
          simp only [List.append_assoc]
        rw [happend]
        unfold passMinus
        split
        · next heq => exact absurd (List.cons.inj heq).1 hne
        · rfl
    have hends := hexponent.endsDigits hrest
    have hread := hwhole.readWhole_eq (hfraction.endsDigits hends) early
    have hreadFraction := hfraction.readFraction_eq hends (hexponent.head?_ne hrest) early
    have hreadExponent := hexponent.readExponent_eq hrest early
    simp only [readNumber, hpass, hread, hreadFraction, hreadExponent, bind, Except.bind, pure,
      Except.pure]

end Number

/-- A number does not begin with a character that begins none. -/
theorem ne_of_startsNumber {c d : Char} (hc : startsNumber c = true) (hd : startsNumber d = false) :
    c ≠ d := by
  rintro rfl
  rw [hc] at hd
  contradiction

/-- A number does not begin with a blank. -/
theorem isBlank_of_startsNumber {c : Char} (h : startsNumber c = true) : isBlank c = false := by
  have hne (d : Char) (hd : startsNumber d = false) : (c == d) = false :=
    beq_eq_false_iff_ne.mpr (ne_of_startsNumber h hd)
  simp only [isBlank, hne ' ' rfl, hne '\t' rfl, hne '\n' rfl, hne '\r' rfl, Bool.or_self]

/-! ## Values -/

/-- A JSON value. Keys may come twice in an object, and what stands between quotation marks need not
be a text. -/
inductive IsJson : List Char → Prop where
  | null : IsJson "null".toList
  | true : IsJson "true".toList
  | false : IsJson "false".toList
  | number {negative : Bool} {n : NumberText} {s : List Char} (h : IsNumber negative n s) : IsJson s
  | string {s : List Char} (h : IsContent s) : IsJson ('"' :: (s ++ ['"']))
  | array {items : List (List Char)} {s : List Char} (hs : Listing .square items s)
      (h : ∀ item ∈ items, IsJson item) : IsJson s
  | object {members : List MemberText} {s : List Char}
      (hs : Listing .curly (members.map MemberText.chars) s)
      (hkeys : ∀ member ∈ members, IsContent member.key)
      (h : ∀ member ∈ members, IsJson member.value) : IsJson s

/-- No value begins with a blank or with a closing bracket. -/
theorem IsJson.beginsItem {s : List Char} (h : IsJson s) (bracket : Bracket) :
    BeginsItem bracket s := by
  cases h with
  | null => exact ⟨'n', _, rfl, rfl, by cases bracket <;> decide⟩
  | true => exact ⟨'t', _, rfl, rfl, by cases bracket <;> decide⟩
  | false => exact ⟨'f', _, rfl, rfl, by cases bracket <;> decide⟩
  | number h =>
    obtain ⟨c, t, rfl, hstarts, -⟩ := h.exists_head
    refine ⟨c, t, rfl, isBlank_of_startsNumber hstarts, ?_⟩
    exact ne_of_startsNumber hstarts (by cases bracket <;> rfl)
  | string => exact beginsItem_quote bracket _
  | array hs =>
    obtain ⟨t, rfl⟩ := hs.exists_opening
    exact ⟨'[', t, rfl, rfl, by cases bracket <;> decide⟩
  | object hs =>
    obtain ⟨t, rfl⟩ := hs.exists_opening
    exact ⟨'\x7b', t, rfl, rfl, by cases bracket <;> decide⟩

end IntervalDump.Json
