import Mathlib.Tactic.SplitIfs
import IntervalDump.Json.Lexical
import IntervalDump.Json.Quoted
/-!
# Texts between quotation marks

A character can be written between quotation marks in several ways (`Writes`): as it is, as a
backslash with one letter, by its number in four hexadecimal digits, or by the numbers of its two
surrogates. Whichever is taken, the text is read back (`readText_spells`); how a text is quoted when
it is printed is one of these ways (`spells_encoded`).

Where a text is only passed over, it need not be the text of anything: surrogates may stand alone
(`IsContent`, `passText_content`).
-/

namespace IntervalDump.Json

/-! ## Hexadecimal digits -/

/-- A hexadecimal digit with its value, in either case. -/
inductive IsHexDigit : Char → Nat → Prop where
  | lower {n : Nat} (h : n < 16) : IsHexDigit (Nat.digitChar n) n
  | upper {n : Nat} (h : n < 16) : IsHexDigit (Nat.digitChar n).toUpper n

/-- A hexadecimal digit is read with its value. -/
theorem IsHexDigit.hexValue?_eq {c : Char} {n : Nat} (h : IsHexDigit c n) :
    hexValue? c = some n := by
  have hlower : ∀ n < 16, hexValue? (Nat.digitChar n) = some n := by decide
  have hupper : ∀ n < 16, hexValue? (Nat.digitChar n).toUpper = some n := by decide
  cases h with
  | lower h => exact hlower n h
  | upper h => exact hupper n h

/-- Four hexadecimal digits with the number that they spell. -/
inductive IsUnit : List Char → Nat → Prop where
  | digits {a b c d : Char} {i j k l : Nat} (ha : IsHexDigit a i) (hb : IsHexDigit b j)
      (hc : IsHexDigit c k) (hd : IsHexDigit d l) :
      IsUnit [a, b, c, d] (((i * 16 + j) * 16 + k) * 16 + l)

/-- Four hexadecimal digits are read as their number. -/
theorem IsUnit.exists_hexUnit? {digits : List Char} {n : Nat} (h : IsUnit digits n) :
    ∃ a b c d, digits = [a, b, c, d] ∧ hexUnit? a b c d = some n := by
  cases h with
  | digits ha hb hc hd =>
    refine ⟨_, _, _, _, rfl, ?_⟩
    simp only [hexUnit?, ha.hexValue?_eq, hb.hexValue?_eq, hc.hexValue?_eq, hd.hexValue?_eq,
      Option.bind_eq_bind, Option.bind_some, Option.pure_def]

/-- The number of a character below U+0100, as it is quoted. -/
theorem isUnit_hexDigit {n : Nat} (h : n < 256) :
    IsUnit ['0', '0', Quoted.hexDigit (n / 16), Quoted.hexDigit n] n := by
  have hzero : IsHexDigit '0' 0 := .lower (show 0 < 16 by decide)
  have hunit : IsUnit ['0', '0', Quoted.hexDigit (n / 16), Quoted.hexDigit n]
      (((0 * 16 + 0) * 16 + n / 16 % 16) * 16 + n % 16) :=
    .digits hzero hzero (.lower (Nat.mod_lt _ (by decide))) (.lower (Nat.mod_lt _ (by decide)))
  rwa [show ((0 * 16 + 0) * 16 + n / 16 % 16) * 16 + n % 16 = n by omega] at hunit

/-! ## Ways to write a character -/

/-- The letters that may stand behind a backslash, with what they stand for. -/
def escapes : List (Char × Char) :=
  [('"', '"'), ('\\', '\\'), ('/', '/'), ('b', '\x08'), ('f', '\x0c'), ('n', '\n'), ('r', '\r'),
    ('t', '\t')]

/-- A letter that is listed stands for its character. -/
theorem escaped?_of_mem {letter c : Char} (h : (letter, c) ∈ escapes) :
    escaped? letter = some c := by
  have hall : ∀ e ∈ escapes, escaped? e.1 = some e.2 := by decide
  exact hall _ h

/-- The characters between quotation marks write this character. -/
inductive Writes : Char → List Char → Prop where
  | plain {c : Char} (hquote : c ≠ '"') (hslash : c ≠ '\\') (hc : 0x20 ≤ c.toNat) : Writes c [c]
  | escape {letter c : Char} (h : (letter, c) ∈ escapes) : Writes c ['\\', letter]
  | unit {c : Char} {digits : List Char} (h : IsUnit digits c.toNat) :
      Writes c ('\\' :: 'u' :: digits)
  | surrogates {c : Char} {high low : Nat} {highDigits lowDigits : List Char}
      (hc : c.toNat = 0x10000 + high * 0x400 + low) (hlow : low < 0x400)
      (hhighDigits : IsUnit highDigits (0xD800 + high))
      (hlowDigits : IsUnit lowDigits (0xDC00 + low)) :
      Writes c ('\\' :: 'u' :: (highDigits ++ '\\' :: 'u' :: lowDigits))

/-- Between quotation marks `s` is the text. -/
inductive Spells : List Char → List Char → Prop where
  | nil : Spells [] []
  | cons {c : Char} {piece text s : List Char} (hc : Writes c piece) (h : Spells text s) :
      Spells (c :: text) (piece ++ s)

/-! ## Reading -/

/-- The letter of numbers is not among those that stand for a character. -/
theorem ne_of_mem_escapes {letter c : Char} (h : (letter, c) ∈ escapes) : letter ≠ 'u' := by
  have hall : ∀ e ∈ escapes, e.1 ≠ 'u' := by decide
  exact hall _ h

/-- A character that is written as a letter is read. -/
theorem readText_escaped {letter c : Char} (h : (letter, c) ∈ escapes) (out s : List Char) :
    readText out ('\\' :: letter :: s) = readText (c :: out) s := by
  have hescaped := escaped?_of_mem h
  have hne := ne_of_mem_escapes h
  rw [readText.eq_def]
  split <;> grind

/-- A character that is written as it is is read. -/
theorem readText_plain {c : Char} (hquote : c ≠ '"') (hslash : c ≠ '\\') (hc : 0x20 ≤ c.toNat)
    (out s : List Char) : readText out (c :: s) = readText (c :: out) s := by
  rw [readText.eq_def]
  split <;> grind

/-- No character has the number of a surrogate. -/
theorem not_surrogate (c : Char) : c.toNat < 0xD800 ∨ 0xDFFF < c.toNat := by
  rcases c.valid with h | ⟨h, -⟩
  · exact .inl h
  · exact .inr h

/-- A character that is written by its number is read. -/
theorem readText_unit {c : Char} {digits : List Char} (h : IsUnit digits c.toNat)
    (out s : List Char) :
    readText out ('\\' :: 'u' :: (digits ++ s)) = readText (c :: out) s := by
  obtain ⟨a, b, d, e, rfl, hunit⟩ := h.exists_hexUnit?
  have hrange := not_surrogate c
  have hlow : ¬ (0xDC00 ≤ c.toNat ∧ c.toNat ≤ 0xDFFF) := by omega
  have hhigh : ¬ (0xD800 ≤ c.toNat ∧ c.toNat ≤ 0xDBFF) := by omega
  rw [List.cons_append, List.cons_append, List.cons_append, List.cons_append, List.nil_append,
    readText.eq_def]
  simp only [hunit, if_neg hlow, if_neg hhigh, Char.ofNat_toNat]

/-- A character that is written by its two surrogates is read. -/
theorem readText_surrogates {c : Char} {high low : Nat} {highDigits lowDigits : List Char}
    (hc : c.toNat = 0x10000 + high * 0x400 + low) (hlow : low < 0x400)
    (hhighDigits : IsUnit highDigits (0xD800 + high)) (hlowDigits : IsUnit lowDigits (0xDC00 + low))
    (out s : List Char) :
    readText out ('\\' :: 'u' :: (highDigits ++ '\\' :: 'u' :: (lowDigits ++ s))) =
      readText (c :: out) s := by
  have hhigh : high < 0x400 := by
    rcases c.valid with h | ⟨-, h⟩ <;> simp only [Char.toNat] at hc <;> omega
  obtain ⟨a, b, d, e, rfl, hunit⟩ := hhighDigits.exists_hexUnit?
  obtain ⟨a', b', d', e', rfl, hunit'⟩ := hlowDigits.exists_hexUnit?
  have hnotLow : ¬ (0xDC00 ≤ 0xD800 + high ∧ 0xD800 + high ≤ 0xDFFF) := by omega
  have hisHigh : 0xD800 ≤ 0xD800 + high ∧ 0xD800 + high ≤ 0xDBFF := by omega
  have hisLow : 0xDC00 ≤ 0xDC00 + low ∧ 0xDC00 + low ≤ 0xDFFF := by omega
  have hchar : ofSurrogates (0xD800 + high) (0xDC00 + low) = c := by
    rw [ofSurrogates, Nat.add_sub_cancel_left, Nat.add_sub_cancel_left, ← hc, Char.ofNat_toNat]
  simp only [List.cons_append, List.nil_append]
  rw [readText.eq_def]
  simp only [hunit, if_neg hnotLow, if_pos hisHigh, hunit', if_pos hisLow, hchar]

/-- **Whatever a character is written as, it is read as this character.** -/
theorem Writes.readText_eq {c : Char} {piece : List Char} (h : Writes c piece)
    (out s : List Char) : readText out (piece ++ s) = readText (c :: out) s := by
  cases h with
  | plain hquote hslash hc => exact readText_plain hquote hslash hc out s
  | escape h => exact readText_escaped h out s
  | unit h => exact readText_unit h out s
  | surrogates hc hlow hhighDigits hlowDigits =>
    simp only [List.cons_append, List.append_assoc]
    exact readText_surrogates hc hlow hhighDigits hlowDigits out s

/-- **A text is read however it is spelled.** -/
theorem readText_spells {text s : List Char} (h : Spells text s) (out rest : List Char) :
    readText out (s ++ '"' :: rest) = .ok (out.reverse ++ text, rest) := by
  induction h generalizing out with
  | nil => rw [List.nil_append, List.append_nil, readText]
  | cons hc h ih =>
    rw [List.append_assoc, hc.readText_eq, ih, List.reverse_cons, List.append_assoc,
      List.singleton_append]

/-- What is refused as a text spells none. -/
theorem not_spells_of_readText {s : List Char} {fault : Fault}
    (h : readText [] (s ++ ['"']) = .error fault) (text : List Char) : ¬ Spells text s := by
  intro hspells
  rw [readText_spells hspells] at h
  cases h

/-! ## How a text is quoted -/

/-- How a character is quoted is one of the ways to write it. -/
theorem writes_encodeChar (c : Char) : Writes c (Quoted.encodeChar c) := by
  unfold Quoted.encodeChar
  split_ifs with hquote hslash hb ht hn hf hr hcontrol
  · subst hquote; exact .escape (by decide)
  · subst hslash; exact .escape (by decide)
  · subst hb; exact .escape (by decide)
  · subst ht; exact .escape (by decide)
  · subst hn; exact .escape (by decide)
  · subst hf; exact .escape (by decide)
  · subst hr; exact .escape (by decide)
  · exact .unit (isUnit_hexDigit (by omega))
  · exact .plain hquote hslash (by omega)

/-- How a text is quoted spells the text. -/
theorem spells_encoded (text : List Char) : Spells text (text.flatMap Quoted.encodeChar) := by
  induction text with
  | nil => exact .nil
  | cons c text ih =>
    rw [List.flatMap_cons]
    exact .cons (writes_encodeChar c) ih

/-- A text as it is quoted. -/
def Quoted.chars (text : String) : List Char :=
  '"' :: (text.toList.flatMap encodeChar ++ ['"'])

/-- The text in quotation marks, spelled in any way. -/
inductive IsString (text : String) : List Char → Prop where
  | spelled {s : List Char} (h : Spells text.toList s) : IsString text ('"' :: (s ++ ['"']))

/-- How a text is quoted is a text with its quotation marks. -/
theorem Quoted.isString_chars (text : String) : IsString text (chars text) :=
  .spelled (spells_encoded text.toList)

/-! ## Passing over a text -/

/-- What may stand between quotation marks where nothing is read. -/
inductive IsContent : List Char → Prop where
  | nil : IsContent []
  | plain {c : Char} {s : List Char} (hquote : c ≠ '"') (hslash : c ≠ '\\') (hc : 0x20 ≤ c.toNat)
      (h : IsContent s) : IsContent (c :: s)
  | escape {letter c : Char} {s : List Char} (hletter : (letter, c) ∈ escapes) (h : IsContent s) :
      IsContent ('\\' :: letter :: s)
  | unit {digits s : List Char} {n : Nat} (hdigits : IsUnit digits n) (h : IsContent s) :
      IsContent ('\\' :: 'u' :: (digits ++ s))

/-- **A text is passed over** whether or not it is the text of anything. -/
theorem passText_content {s : List Char} (h : IsContent s) (rest : List Char) :
    passText (s ++ '"' :: rest) = .ok rest := by
  induction h with
  | nil => rw [List.nil_append, passText]
  | plain hquote hslash hc h ih =>
    rw [List.cons_append, passText.eq_def]
    split <;> grind
  | escape hletter h ih =>
    have hescaped := escaped?_of_mem hletter
    have hne := ne_of_mem_escapes hletter
    rw [List.cons_append, List.cons_append, passText.eq_def]
    split <;> grind
  | unit hdigits h ih =>
    obtain ⟨a, b, c, d, rfl, hunit⟩ := hdigits.exists_hexUnit?
    simp only [List.cons_append, List.nil_append]
    rw [passText.eq_def]
    simp only [hunit, ih]

/-- What spells a text may stand there. -/
theorem Spells.isContent {text s : List Char} (h : Spells text s) : IsContent s := by
  induction h with
  | nil => exact .nil
  | cons hc h ih =>
    cases hc with
    | plain hquote hslash hc => exact .plain hquote hslash hc ih
    | escape hletter => exact .escape hletter ih
    | unit hdigits => exact .unit hdigits ih
    | surrogates hc hlow hhighDigits hlowDigits =>
      simp only [List.cons_append, List.append_assoc]
      exact .unit hhighDigits (.unit hlowDigits ih)

/-! ## What spells no text -/

/-- A hexadecimal digit is worth less than sixteen. -/
theorem IsHexDigit.lt {c : Char} {n : Nat} (h : IsHexDigit c n) : n < 16 := by
  cases h with
  | lower h => exact h
  | upper h => exact h

/-- Four hexadecimal digits spell a number of sixteen bits. -/
theorem IsUnit.lt {digits : List Char} {n : Nat} (h : IsUnit digits n) : n < 0x10000 := by
  cases h with
  | digits ha hb hc hd =>
    have ha := ha.lt
    have hb := hb.lt
    have hc := hc.lt
    have hd := hd.lt
    omega

/-- A low surrogate does not stand first. -/
theorem readText_low {digits : List Char} {n : Nat} (h : IsUnit digits n)
    (hlow : 0xDC00 ≤ n ∧ n ≤ 0xDFFF) (out s : List Char) :
    readText out ('\\' :: 'u' :: (digits ++ s)) = .error .grammar := by
  obtain ⟨a, b, c, d, rfl, hunit⟩ := h.exists_hexUnit?
  simp only [List.cons_append, List.nil_append]
  rw [readText.eq_def]
  simp only [hunit, if_pos hlow]

section High

variable {digits : List Char} {n : Nat} (h : IsUnit digits n) (hhigh : 0xD800 ≤ n ∧ n ≤ 0xDBFF)
include h hhigh

/-- A high surrogate does not stand before anything but a number. -/
theorem readText_high_alone {s : List Char} (hnil : s ≠ []) (hslash : s ≠ ['\\'])
    (hunit : ∀ t, s ≠ '\\' :: 'u' :: t) (out : List Char) :
    readText out ('\\' :: 'u' :: (digits ++ s)) = .error .grammar := by
  obtain ⟨a, b, c, d, rfl, hhex⟩ := h.exists_hexUnit?
  have hnotLow : ¬ (0xDC00 ≤ n ∧ n ≤ 0xDFFF) := by omega
  simp only [List.cons_append, List.nil_append]
  rw [readText.eq_def]
  simp only [hhex, if_neg hnotLow, if_pos hhigh]
  split
  · exact absurd rfl hnil
  · exact absurd rfl hslash
  · exact absurd rfl (hunit _)
  · exact absurd rfl (hunit _)
  · rfl

/-- A high surrogate does not stand before a number that is no low one. -/
theorem readText_high_unit {digits' : List Char} {n' : Nat} (h' : IsUnit digits' n')
    (hnotLow : ¬ (0xDC00 ≤ n' ∧ n' ≤ 0xDFFF)) (out s : List Char) :
    readText out ('\\' :: 'u' :: (digits ++ '\\' :: 'u' :: (digits' ++ s))) =
      .error .grammar := by
  obtain ⟨a, b, c, d, rfl, hhex⟩ := h.exists_hexUnit?
  obtain ⟨a', b', c', d', rfl, hhex'⟩ := h'.exists_hexUnit?
  have hfirst : ¬ (0xDC00 ≤ n ∧ n ≤ 0xDFFF) := by omega
  simp only [List.cons_append, List.nil_append]
  rw [readText.eq_def]
  simp only [hhex, if_neg hfirst, if_pos hhigh, hhex', if_neg hnotLow]

end High

/-- What is between the quotation marks is the text of something, or it is refused as a text. -/
def IsDecided (s : List Char) : Prop :=
  (∃ text, Spells text s) ∨ ∀ out rest, readText out (s ++ '"' :: rest) = .error .grammar

/-- A character before the rest decides nothing. -/
theorem Writes.isDecided {c : Char} {piece s : List Char} (hc : Writes c piece)
    (h : IsDecided s) : IsDecided (piece ++ s) := by
  rcases h with ⟨text, h⟩ | h
  · exact .inl ⟨c :: text, .cons hc h⟩
  · refine .inr fun out rest => ?_
    rw [List.append_assoc, hc.readText_eq, h]

/-- A number that is no surrogate and not too large is that of a character. -/
theorem toNat_ofNat {n : Nat} (h : n.isValidChar) : (Char.ofNat n).toNat = n := by
  rw [Char.ofNat, dif_pos h]
  rfl

/-- A pair of surrogates is a character. -/
theorem writes_surrogates {digits digits' : List Char} {n n' : Nat} (h : IsUnit digits n)
    (h' : IsUnit digits' n') (hhigh : 0xD800 ≤ n ∧ n ≤ 0xDBFF)
    (hlow : 0xDC00 ≤ n' ∧ n' ≤ 0xDFFF) :
    Writes (ofSurrogates n n') ('\\' :: 'u' :: (digits ++ '\\' :: 'u' :: digits')) := by
  have hchar : (ofSurrogates n n').toNat = 0x10000 + (n - 0xD800) * 0x400 + (n' - 0xDC00) := by
    refine toNat_ofNat (.inr ⟨?_, ?_⟩) <;> omega
  refine .surrogates hchar (by omega) ?_ ?_
  · rwa [Nat.add_sub_cancel' hhigh.1]
  · rwa [Nat.add_sub_cancel' hlow.1]

/-- The number of a character writes it, if it is no surrogate. -/
theorem writes_unit {digits : List Char} {n : Nat} (h : IsUnit digits n)
    (hhigh : ¬ (0xD800 ≤ n ∧ n ≤ 0xDBFF)) (hlow : ¬ (0xDC00 ≤ n ∧ n ≤ 0xDFFF)) :
    Writes (Char.ofNat n) ('\\' :: 'u' :: digits) := by
  have hlt := h.lt
  have hchar : (Char.ofNat n).toNat = n := by
    rcases Nat.lt_or_ge n 0xD800 with hbelow | habove
    · exact toNat_ofNat (.inl hbelow)
    · refine toNat_ofNat (.inr ⟨?_, ?_⟩) <;> omega
  refine .unit ?_
  rwa [hchar]

/-- Behind a high surrogate, what is between the quotation marks goes on with a low one, or it is
refused. -/
theorem isDecided_high {digits s : List Char} {n : Nat} (h : IsUnit digits n)
    (hhigh : 0xD800 ≤ n ∧ n ≤ 0xDBFF) (hs : IsContent s)
    (ih : ∀ t, t.length < s.length → IsContent t → IsDecided t) :
    IsDecided ('\\' :: 'u' :: (digits ++ s)) := by
  have halone {t : List Char} (hnil : ∀ rest : List Char, t ++ '"' :: rest ≠ [])
      (hslash : ∀ rest, t ++ '"' :: rest ≠ ['\\'])
      (hunit : ∀ rest t', t ++ '"' :: rest ≠ '\\' :: 'u' :: t') :
      IsDecided ('\\' :: 'u' :: (digits ++ t)) := by
    refine .inr fun out rest => ?_
    simp only [List.cons_append, List.append_assoc]
    exact readText_high_alone h hhigh (hnil rest) (hslash rest) (hunit rest) out
  cases hs with
  | nil => exact halone (by simp) (by simp) (by simp)
  | plain hquote hslash => exact halone (by simp) (by simp [hslash]) (by simp [hslash])
  | escape hletter =>
    have hne := ne_of_mem_escapes hletter
    exact halone (by simp) (by simp) (by simp [hne])
  | @unit digits' s n' hdigits hs =>
    by_cases hlow : 0xDC00 ≤ n' ∧ n' ≤ 0xDFFF
    · have hshorter : s.length < ('\\' :: 'u' :: (digits' ++ s)).length := by
        simp only [List.length_cons, List.length_append]
        omega
      have hrest : IsDecided s := ih s hshorter hs
      have hpair := (writes_surrogates h hdigits hhigh hlow).isDecided hrest
      simpa only [List.cons_append, List.append_assoc] using hpair
    · refine .inr fun out rest => ?_
      simp only [List.cons_append, List.append_assoc]
      exact readText_high_unit h hhigh hdigits hlow out _

/-- **What spells no text is refused where a text is read.** The induction is on the length, since a
pair of surrogates takes two steps of the grammar. -/
theorem IsContent.isDecided {s : List Char} (h : IsContent s) : IsDecided s := by
  induction hlength : s.length using Nat.strongRecOn generalizing s with
  | _ length ih =>
    have hshorter (t : List Char) (ht : t.length < s.length) (hcontent : IsContent t) :
        IsDecided t := ih t.length (hlength ▸ ht) hcontent rfl
    cases h with
    | nil => exact .inl ⟨[], .nil⟩
    | @plain c t hquote hslash hc h =>
      exact (Writes.plain hquote hslash hc).isDecided (hshorter t (Nat.lt_succ_self _) h)
    | @escape letter c t hletter h =>
      have ht : t.length < t.length + 2 := Nat.lt_add_of_pos_right Nat.two_pos
      exact (Writes.escape hletter).isDecided (hshorter t ht h)
    | @unit digits t n hdigits h =>
      have hrest : t.length < ('\\' :: 'u' :: (digits ++ t)).length := by
        simp only [List.length_cons, List.length_append]
        omega
      -- a low surrogate is refused, a number that is none is a character, and only a high one has
      -- to wait for what follows
      by_cases hlow : 0xDC00 ≤ n ∧ n ≤ 0xDFFF
      · refine .inr fun out rest => ?_
        simp only [List.cons_append, List.append_assoc]
        exact readText_low hdigits hlow out _
      · by_cases hhigh : 0xD800 ≤ n ∧ n ≤ 0xDBFF
        · exact isDecided_high hdigits hhigh h fun t' ht => hshorter t' (Nat.lt_trans ht hrest)
        · exact (writes_unit hdigits hhigh hlow).isDecided (hshorter t hrest h)

end IntervalDump.Json
