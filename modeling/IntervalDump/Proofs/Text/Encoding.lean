import Mathlib.Data.List.Infix
import Mathlib.Tactic.SplitIfs
import IntervalDump.Markup.Byte
/-!
# Characters as bytes

Markup is recognized by ASCII bytes, and a text is written with bytes of all its characters. This
file shows that the one does not disturb the other.

* **An ASCII byte is an ASCII character** (`Utf8.eq_of_mem_encodeChar`): it stands in the bytes of
  no other character.
* **An ASCII text that stands among the bytes stands in the text** (`Utf8.infix_of_encodeChars`).
* **Characters are told by their bytes** (`Utf8.eq_of_encodeChar_append`).
* **Valid bytes** (`Utf8.IsValid`) are the bytes of a text. ASCII bytes are, and valid bytes may be
  put in a row.
-/

namespace IntervalDump.Utf8

open Markup (ascii)

/-- The bytes of characters, one after the other. -/
def encodeChars (chars : List Char) : List UInt8 :=
  chars.flatMap String.utf8EncodeChar

/-- A list of characters is encoded as the text is that it makes. -/
theorem encode_ofList (chars : List Char) : encode (String.ofList chars) = encodeChars chars := by
  simp [encode, List.utf8Encode, encodeChars]

/-- A text is encoded character by character. -/
theorem encode_eq (text : String) : encode text = encodeChars text.toList := by
  rw [← encode_ofList, String.ofList_toList]

/-- No characters have no bytes. -/
@[simp] theorem encodeChars_nil : encodeChars [] = [] := rfl

/-- The first character has the first bytes. -/
theorem encodeChars_cons (c : Char) (chars : List Char) :
    encodeChars (c :: chars) = String.utf8EncodeChar c ++ encodeChars chars :=
  List.flatMap_cons

/-- Characters are encoded one after the other. -/
theorem encodeChars_append (first second : List Char) :
    encodeChars (first ++ second) = encodeChars first ++ encodeChars second :=
  List.flatMap_append

/-- Every character has a byte. -/
theorem encodeChar_ne_nil (c : Char) : String.utf8EncodeChar c ≠ [] := by
  have := String.length_utf8EncodeChar c
  have := c.utf8Size_pos
  exact List.length_pos_iff.mp (by omega)

/-- Some characters have some bytes. -/
theorem encodeChars_ne_nil {chars : List Char} (h : chars ≠ []) : encodeChars chars ≠ [] := by
  obtain ⟨c, rest, rfl⟩ := List.exists_cons_of_ne_nil h
  rw [encodeChars_cons]
  exact List.append_ne_nil_of_left_ne_nil (encodeChar_ne_nil c) _

/-! ## ASCII characters -/

/-- A character of one byte has its number. -/
theorem toNat_toUInt8 {c : Char} (h : c.toNat < 128) : c.toUInt8.toNat = c.toNat := by
  have : c.toUInt8.toNat = c.toNat % 256 := rfl
  omega

/-- A character of one byte is encoded as this byte. -/
theorem encodeChar_ascii {c : Char} (h : c.toNat < 128) :
    String.utf8EncodeChar c = [c.toUInt8] := by
  have hsmall : c.val.toNat ≤ 127 := by
    change c.toNat ≤ 127
    omega
  unfold String.utf8EncodeChar
  simp only [hsmall, if_true]
  rfl

/-- A character past ASCII has no ASCII byte. -/
theorem le_toNat_of_mem_encodeChar {c : Char} (hc : 128 ≤ c.toNat) {b : UInt8}
    (h : b ∈ String.utf8EncodeChar c) : 128 ≤ b.toNat := by
  have hlarge : ¬ c.val.toNat ≤ 127 := by
    change ¬ c.toNat ≤ 127
    omega
  unfold String.utf8EncodeChar at h
  simp only [hlarge, if_false] at h
  split_ifs at h
  · have hall : ∀ b ∈ [UInt8.ofNat (c.val.toNat / 64 % 32 + 192),
        UInt8.ofNat (c.val.toNat % 64 + 128)], 128 ≤ b.toNat := by
      simp only [List.forall_mem_cons, UInt8.toNat_ofNat']
      refine ⟨by omega, by omega, List.forall_mem_nil _⟩
    exact hall b h
  · have hall : ∀ b ∈ [UInt8.ofNat (c.val.toNat / 4096 % 16 + 224),
        UInt8.ofNat (c.val.toNat / 64 % 64 + 128), UInt8.ofNat (c.val.toNat % 64 + 128)],
        128 ≤ b.toNat := by
      simp only [List.forall_mem_cons, UInt8.toNat_ofNat']
      refine ⟨by omega, by omega, by omega, List.forall_mem_nil _⟩
    exact hall b h
  · have hall : ∀ b ∈ [UInt8.ofNat (c.val.toNat / 262144 % 8 + 240),
        UInt8.ofNat (c.val.toNat / 4096 % 64 + 128), UInt8.ofNat (c.val.toNat / 64 % 64 + 128),
        UInt8.ofNat (c.val.toNat % 64 + 128)], 128 ≤ b.toNat := by
      simp only [List.forall_mem_cons, UInt8.toNat_ofNat']
      refine ⟨by omega, by omega, by omega, by omega, List.forall_mem_nil _⟩
    exact hall b h

/-- **An ASCII byte stands in no character but its own.** -/
theorem eq_of_mem_encodeChar {c d : Char} (hd : d.toNat < 128)
    (h : d.toUInt8 ∈ String.utf8EncodeChar c) : c = d := by
  have hbyte := toNat_toUInt8 hd
  rcases Nat.lt_or_ge c.toNat 128 with hc | hc
  · rw [encodeChar_ascii hc, List.mem_singleton] at h
    apply Char.toNat_inj.mp
    rw [← toNat_toUInt8 hc, ← h, hbyte]
  · have := le_toNat_of_mem_encodeChar hc h
    omega

/-- A byte of one character stands for that character and for no part of another. -/
theorem mem_of_mem_encodeChars {chars : List Char} {d : Char} (hd : d.toNat < 128)
    (h : d.toUInt8 ∈ encodeChars chars) : d ∈ chars := by
  obtain ⟨c, hc, hmem⟩ := List.mem_flatMap.mp h
  rwa [← eq_of_mem_encodeChar hd hmem]

/-- A character of one byte is found among the bytes. -/
theorem mem_encodeChars {chars : List Char} {d : Char} (hd : d.toNat < 128) (h : d ∈ chars) :
    d.toUInt8 ∈ encodeChars chars := by
  refine List.mem_flatMap.mpr ⟨d, h, ?_⟩
  rw [encodeChar_ascii hd]
  exact List.mem_singleton_self _

/-- A character of one byte that is not among the characters is not among the bytes. -/
theorem not_mem_encodeChars {chars : List Char} {d : Char} (hd : d.toNat < 128) (h : d ∉ chars) :
    d.toUInt8 ∉ encodeChars chars :=
  fun hmem => h (mem_of_mem_encodeChars hd hmem)

/-- Every byte is different from that of a character that is not there. -/
theorem ne_of_mem_encodeChars {chars : List Char} {b : UInt8} (hb : b ∈ encodeChars chars)
    {d : Char} (hd : d.toNat < 128) (h : d ∉ chars) : b ≠ d.toUInt8 :=
  ne_of_mem_of_not_mem hb (not_mem_encodeChars hd h)

/-- If the last byte is an ASCII byte, the last character is that of this byte. -/
theorem getLast?_of_encodeChars {chars : List Char} {d : Char} (hd : d.toNat < 128)
    (h : (encodeChars chars).getLast? = some d.toUInt8) : chars.getLast? = some d := by
  rcases List.eq_nil_or_concat chars with rfl | ⟨first, c, rfl⟩
  · cases h
  · rw [List.concat_eq_append] at h ⊢
    have hlast : encodeChars [c] = String.utf8EncodeChar c := List.append_nil _
    rw [encodeChars_append, hlast,
      List.getLast?_append_of_ne_nil _ (encodeChar_ne_nil c)] at h
    obtain rfl := eq_of_mem_encodeChar hd (List.mem_of_getLast? h)
    exact List.getLast?_concat

/-- All of the characters are ASCII characters. -/
def IsAscii (chars : List Char) : Prop :=
  ∀ c ∈ chars, c.toNat < 128

instance (chars : List Char) : Decidable (IsAscii chars) :=
  List.decidableBAll (fun c : Char => c.toNat < 128) chars

/-- Characters of one byte each are encoded one by one. -/
theorem encodeChars_ascii {chars : List Char} (h : IsAscii chars) :
    encodeChars chars = ascii chars := by
  induction chars with
  | nil => rfl
  | cons c chars ih =>
    rw [encodeChars_cons, encodeChar_ascii (h c List.mem_cons_self),
      ih fun d hd => h d (List.mem_cons_of_mem _ hd)]
    rfl

/-- A text between characters of one byte is encoded between their bytes. -/
theorem encodeChars_between {before behind : List Char} (hbefore : IsAscii before)
    (hbehind : IsAscii behind) (text : List Char) :
    encodeChars (before ++ text ++ behind) =
      ascii before ++ (encodeChars text ++ ascii behind) := by
  rw [encodeChars_append, encodeChars_append, encodeChars_ascii hbefore,
    encodeChars_ascii hbehind, List.append_assoc]

section Patterns

variable {pattern chars : List Char} (hpattern : IsAscii pattern)
include hpattern

/-- A pattern of one-byte characters that the bytes begin with is one that the characters begin
with. -/
theorem prefix_of_encodeChars (h : ascii pattern <+: encodeChars chars) : pattern <+: chars := by
  induction pattern generalizing chars with
  | nil => exact List.nil_prefix
  | cons d pattern ih =>
    have hd := hpattern d List.mem_cons_self
    cases chars with
    | nil => simp [ascii] at h
    | cons c chars =>
      obtain ⟨rest, hrest⟩ := h
      have hc : c = d := by
        refine eq_of_mem_encodeChar hd ?_
        obtain ⟨b, more, hbytes⟩ := List.exists_cons_of_ne_nil (encodeChar_ne_nil c)
        rw [encodeChars_cons, hbytes] at hrest
        obtain ⟨rfl, -⟩ := List.cons.inj hrest
        rw [hbytes]
        exact List.mem_cons_self
      subst hc
      rw [encodeChars_cons, encodeChar_ascii hd] at hrest
      obtain ⟨-, hrest⟩ := List.cons.inj hrest
      have hprefix := ih (fun c hc => hpattern c (List.mem_cons_of_mem _ hc)) ⟨rest, hrest⟩
      exact (List.prefix_cons_inj c).mpr hprefix

/-- **An ASCII text among the bytes of a text stands in that text.** -/
theorem infix_of_encodeChars (h : ascii pattern <:+: encodeChars chars) : pattern <:+: chars := by
  induction chars with
  | nil =>
    have hnil : ascii pattern = [] := List.infix_nil.mp h
    exact (List.map_eq_nil_iff.mp hnil) ▸ List.infix_rfl
  | cons c chars ih =>
    obtain ⟨before, behind, hsplit⟩ := h
    rw [encodeChars_cons, List.append_assoc] at hsplit
    rcases List.append_eq_append_iff.mp hsplit with ⟨more, hchar, hrest⟩ | ⟨more, hbefore, hrest⟩
    · cases more with
      | nil =>
        -- the pattern begins right behind the character
        rw [List.nil_append] at hrest
        exact (ih ⟨[], behind, by rw [List.nil_append, hrest]⟩).trans (List.suffix_cons c _).isInfix
      | cons b more =>
        cases pattern with
        | nil => exact List.nil_infix
        | cons d pattern =>
          -- the pattern begins in the character, which is then its first one
          have hd := hpattern d List.mem_cons_self
          obtain ⟨rfl, -⟩ := List.cons.inj hrest
          have hmem : d.toUInt8 ∈ String.utf8EncodeChar c := by
            rw [hchar]
            exact List.mem_append_right _ List.mem_cons_self
          obtain rfl := eq_of_mem_encodeChar hd hmem
          rw [encodeChar_ascii hd] at hchar
          have hbefore : before = [] := by
            have hlength := congrArg List.length hchar
            simp only [List.length_append, List.length_cons, List.length_nil] at hlength
            exact List.length_eq_zero_iff.mp (by omega)
          rw [hbefore, List.nil_append] at hsplit
          refine (prefix_of_encodeChars hpattern ⟨behind, ?_⟩).isInfix
          rw [hsplit, encodeChars_cons]
    · exact (ih ⟨more, behind, by rw [List.append_assoc, hrest]⟩).trans
        (List.suffix_cons c _).isInfix

end Patterns

/-- **Characters are told by their bytes**, whatever stands behind these. -/
theorem eq_of_encodeChar_append {c d : Char} {first second : List UInt8}
    (h : String.utf8EncodeChar c ++ first = String.utf8EncodeChar d ++ second) : c = d := by
  have hc := @ByteArray.utf8DecodeChar?_utf8EncodeChar_append first.toByteArray c
  have hd := @ByteArray.utf8DecodeChar?_utf8EncodeChar_append second.toByteArray d
  rw [← List.toByteArray_append, h, List.toByteArray_append, hd] at hc
  exact (Option.some.inj hc).symm

/-! ## Valid bytes -/

/-- The bytes are those of a text. -/
def IsValid (bytes : List UInt8) : Prop :=
  ∃ text, encode text = bytes

/-- Valid bytes behind valid bytes are valid. -/
theorem IsValid.append {first second : List UInt8} (hfirst : IsValid first)
    (hsecond : IsValid second) : IsValid (first ++ second) := by
  obtain ⟨text, rfl⟩ := hfirst
  obtain ⟨text', rfl⟩ := hsecond
  exact ⟨text ++ text', encode_append text text'⟩

/-- A byte of one character is valid. -/
theorem isValid_singleton {b : UInt8} (h : b.toNat < 128) : IsValid [b] := by
  have hchar : (Char.ofUInt8 b).toNat = b.toNat := rfl
  have hbyte : (Char.ofUInt8 b).toUInt8 = b := by
    rw [← UInt8.toNat_inj, toNat_toUInt8 (by omega), hchar]
  refine ⟨String.ofList [Char.ofUInt8 b], ?_⟩
  rw [encode_ofList, encodeChars_cons, encodeChar_ascii (by omega), encodeChars_nil, hbyte]
  rfl

/-- Bytes of one character each are valid. -/
theorem isValid_of_ascii {bytes : List UInt8} (h : ∀ b ∈ bytes, b.toNat < 128) : IsValid bytes := by
  induction bytes with
  | nil => exact ⟨"", rfl⟩
  | cons b bytes ih =>
    obtain ⟨hb, hbytes⟩ := List.forall_mem_cons.mp h
    exact (isValid_singleton hb).append (ih hbytes)

end IntervalDump.Utf8
