import Mathlib.Data.List.Forall2
import Mathlib.Data.List.TakeWhile
import IntervalDump.Markup.Tag
import IntervalDump.Proofs.Markup.Passes
import IntervalDump.Proofs.Markup.Printed
/-!
# Reading a printed tag

**Theorem** (`decodeTag_printed`): the content of a printed tag is decoded to the name and the
attributes it was printed from. It is put together from

* a name, which is read back from its bytes (`Name.decode_encode_text`);
* a value, which is read back from its entities (`Reference.expand_escape`);
* the row of the attributes, in which each one is found again (`RawAttribute.scanFrom_printed`).

Names are not found twice, since names with the same bytes are the same
(`Name.eq_of_encode_text`).
-/

namespace IntervalDump

open Markup
open Utf8 (encodeChars)

/-! ## Names -/

namespace Name

/-- The characters that plain names are written with. -/
def isNameChar (c : Char) : Bool :=
  isWordChar c || c == ':'

/-- A word has no other characters than those of words. -/
theorem isWordChar_of_mem {text : List Char} (h : isWord text) {c : Char} (hc : c ∈ text) :
    isWordChar c :=
  List.all_eq_true.mp (Bool.and_eq_true_iff.mp h).2 c hc

/-- A word has a character. -/
theorem ne_nil_of_isWord {text : List Char} (h : isWord text) : text ≠ [] := by
  rintro rfl
  cases h

/-- A character that is not one of words is in no word. -/
theorem not_mem_word {text : List Char} (h : isWord text) {c : Char} (hc : isWordChar c = false) :
    c ∉ text := by
  intro hmem
  rw [isWordChar_of_mem h hmem] at hc
  cases hc

/-- A qualified name is written with a colon. -/
theorem text_qualified (qualifier localName : String) :
    text ⟨some qualifier, localName⟩ = qualifier ++ ":" ++ localName :=
  rfl

/-- The characters of a qualified name: the qualifier, a colon and the local name. -/
theorem toList_text_qualified (qualifier localName : String) :
    (text ⟨some qualifier, localName⟩).toList = qualifier.toList ++ ':' :: localName.toList := by
  rw [text_qualified, String.toList_append, String.toList_append, List.append_assoc]
  rfl

variable {name : Name}

/-- A name has a character. -/
theorem toList_text_ne_nil (h : name.isPlain) : name.text.toList ≠ [] := by
  obtain ⟨_ | qualifier, localName⟩ := name
  · exact ne_nil_of_isWord (Bool.and_eq_true_iff.mp h).2
  · rw [toList_text_qualified]
    exact List.append_ne_nil_of_right_ne_nil _ (List.cons_ne_nil _ _)

/-- A character that is not one of names is in no name. -/
theorem not_mem_text (h : name.isPlain) {c : Char} (hc : isNameChar c = false) :
    c ∉ name.text.toList := by
  obtain ⟨hword, hcolon⟩ := Bool.or_eq_false_iff.mp hc
  obtain ⟨hqualifier, hlocal⟩ := Bool.and_eq_true_iff.mp h
  obtain ⟨_ | qualifier, localName⟩ := name
  · exact not_mem_word hlocal hword
  · rw [toList_text_qualified, List.mem_append, List.mem_cons]
    rintro (hmem | rfl | hmem)
    · exact not_mem_word hqualifier hword hmem
    · exact absurd hcolon (by decide)
    · exact not_mem_word hlocal hword hmem

/-- No other ASCII character has a byte in a plain name. -/
theorem ne_of_mem_bytes (h : name.isPlain) {b : UInt8} (hb : b ∈ Utf8.encode name.text) {c : Char}
    (hascii : c.toNat < 128) (hc : isNameChar c = false) : b ≠ c.toUInt8 := by
  rw [Utf8.encode_eq] at hb
  exact Utf8.ne_of_mem_encodeChars hb hascii (not_mem_text h hc)

/-- Without a colon, there is no qualifier. -/
theorem split_of_not_mem {raw : List UInt8} (h : ':'.toUInt8 ∉ raw) : split raw = (none, raw) := by
  have hnone : raw.dropWhile (· != ':'.toUInt8) = [] :=
    List.dropWhile_eq_nil_iff.mpr fun b hb => bne_iff_ne.mpr (ne_of_mem_of_not_mem hb h)
  rw [split, hnone]

/-- The first colon ends the qualifier. -/
theorem split_append {before : List UInt8} (h : ':'.toUInt8 ∉ before) (behind : List UInt8) :
    split (before ++ ':'.toUInt8 :: behind) = (some before, behind) := by
  have hbefore : ∀ b ∈ before, (b != ':'.toUInt8) = true := fun b hb =>
    bne_iff_ne.mpr (ne_of_mem_of_not_mem hb h)
  rw [split, List.dropWhile_append_of_pos hbefore, List.takeWhile_append_of_pos hbefore]
  simp

/-- **A plain name is read back from its bytes.** -/
theorem decode_encode_text (h : name.isPlain) : decode (Utf8.encode name.text) = .ok name := by
  obtain ⟨hqualifier, hlocal⟩ := Bool.and_eq_true_iff.mp h
  have hcolon : ∀ {text : String}, isWord text.toList → ':'.toUInt8 ∉ Utf8.encode text := by
    intro text hword
    rw [Utf8.encode_eq]
    exact Utf8.not_mem_encodeChars (by decide) (not_mem_word hword (by decide))
  obtain ⟨_ | qualifier, localName⟩ := name
  · rw [decode, text, split_of_not_mem (hcolon hlocal)]
    dsimp only
    rw [Utf8.decode_encode]
    rfl
  · have hbytes : Utf8.encode (text ⟨some qualifier, localName⟩) =
        Utf8.encode qualifier ++ ':'.toUInt8 :: Utf8.encode localName := by
      rw [text_qualified, Utf8.encode_append, Utf8.encode_append, List.append_assoc]
      rfl
    rw [decode, hbytes, split_append (hcolon hqualifier)]
    dsimp only
    rw [Utf8.decode_encode, Utf8.decode_encode]
    rfl

/-- A name has a byte. -/
theorem encode_text_ne_nil (h : name.isPlain) : Utf8.encode name.text ≠ [] := by
  rw [Utf8.encode_eq]
  exact Utf8.encodeChars_ne_nil (toList_text_ne_nil h)

/-- **A name is known by its bytes.** -/
theorem eq_of_encode_text {other : Name} (h : name.isPlain) (hother : other.isPlain)
    (hbytes : Utf8.encode name.text = Utf8.encode other.text) : name = other := by
  have hname := decode_encode_text h
  rw [hbytes, decode_encode_text hother] at hname
  exact (Except.ok.inj hname).symm

end Name

namespace Markup

/-! ## Values -/

namespace Reference

/-- The expansion of a printed character is that character. -/
theorem expandFrom_escapeChar (total position : Nat) (out rest : List Char) (c : Char) :
    ∃ position', expandFrom total position none out (escapeChar c ++ rest) =
      expandFrom total position' none (c :: out) rest := by
  unfold escapeChar
  split_ifs with hamp hlt hgt hquot hapos
  · subst hamp
    exact ⟨_, rfl⟩
  · subst hlt
    exact ⟨_, rfl⟩
  · subst hgt
    exact ⟨_, rfl⟩
  · subst hquot
    exact ⟨_, rfl⟩
  · subst hapos
    exact ⟨_, rfl⟩
  · refine ⟨position + c.utf8Size, ?_⟩
    rw [List.singleton_append, expandFrom, if_neg hamp]

/-- **A value is what its references are expanded to.** -/
theorem expandFrom_escape (total position : Nat) (out value : List Char) :
    expandFrom total position none out (escape value) = .ok (out.reverse ++ value) := by
  induction value generalizing position out with
  | nil => rw [escape, List.flatMap_nil, expandFrom, List.append_nil]
  | cons c value ih =>
    obtain ⟨position', hfirst⟩ := expandFrom_escapeChar total position out (escape value) c
    have hcons : escape (c :: value) = escapeChar c ++ escape value := List.flatMap_cons
    rw [hcons, hfirst, ih, List.reverse_cons, List.append_assoc, List.singleton_append]

/-- **A value is read back from what it is printed as.** -/
theorem expand_escape (value : String) :
    expand (String.ofList (escape value.toList)) = .ok value := by
  rw [expand, String.toList_ofList, expandFrom_escape, List.reverse_nil, List.nil_append]
  exact congrArg Except.ok String.ofList_toList

end Reference

/-! ## Quotes -/

namespace Quote

variable (quote : Quote)

/-- A quotation mark is a character of one byte. -/
theorem toNat_char_lt : quote.char.toNat < 128 := by
  cases quote <;> decide

/-- A quotation mark is encoded as this byte. -/
theorem encodeChar_char : String.utf8EncodeChar quote.char = [quote.char.toUInt8] :=
  Utf8.encodeChar_ascii quote.toNat_char_lt

/-- The byte is that of a quotation mark. -/
theorem isQuote_char : isQuote quote.char.toUInt8 = true := by
  cases quote <;> decide

/-- The byte is no blank. -/
theorem isBlank_char : isBlank quote.char.toUInt8 = false := by
  cases quote <;> decide

/-- A quotation mark is written as a reference in a value. -/
theorem char_not_mem_escapeChar (c : Char) : quote.char ∉ escapeChar c := by
  unfold escapeChar
  split_ifs with hamp hlt hgt hquot hapos
  · cases quote <;> decide
  · cases quote <;> decide
  · cases quote <;> decide
  · cases quote <;> decide
  · cases quote <;> decide
  · rw [List.mem_singleton]
    cases quote with
    | single => exact Ne.symm hapos
    | double => exact Ne.symm hquot

/-- **No quote stands in a printed value.** -/
theorem char_not_mem_escape (value : List Char) : quote.char ∉ escape value := by
  intro hmem
  obtain ⟨c, -, hc⟩ := List.mem_flatMap.mp hmem
  exact quote.char_not_mem_escapeChar c hc

end Quote

/-! ## Attributes -/

/-- Blanks are encoded as blanks. -/
theorem isBlank_of_mem_encodeChars {blanks : List Char} (h : AreBlanks blanks) {b : UInt8}
    (hb : b ∈ encodeChars blanks) : isBlank b := by
  have hascii : Utf8.IsAscii blanks := by
    intro c hc
    rcases h.cases hc with rfl | rfl | rfl | rfl <;> decide
  rw [Utf8.encodeChars_ascii hascii] at hb
  obtain ⟨c, hc, rfl⟩ := List.mem_map.mp hb
  rcases h.cases hc with rfl | rfl | rfl | rfl <;> decide

/-- No byte of a name is a blank. -/
theorem isBlank_eq_false_of_mem_name {name : Name} (h : name.isPlain) {b : UInt8}
    (hb : b ∈ Utf8.encode name.text) : isBlank b = false := by
  have hspace : b ≠ ' '.toUInt8 := Name.ne_of_mem_bytes h hb (by decide) (by decide)
  have htab : b ≠ '\t'.toUInt8 := Name.ne_of_mem_bytes h hb (by decide) (by decide)
  have hreturn : b ≠ '\r'.toUInt8 := Name.ne_of_mem_bytes h hb (by decide) (by decide)
  have hline : b ≠ '\n'.toUInt8 := Name.ne_of_mem_bytes h hb (by decide) (by decide)
  simp only [isBlank, Bool.or_eq_false_iff, beq_eq_false_iff_ne]
  exact ⟨⟨⟨hspace, htab⟩, hreturn⟩, hline⟩

namespace RawAttribute

/-- The bytes are those that the attribute is printed with. -/
structure Spells (raw : RawAttribute) (a : Attribute) : Prop where
  key : raw.key = Utf8.encode a.name.text
  value : raw.value = encodeChars (escape a.value.toList)

/-- **An attribute that was printed is decoded.** -/
theorem Spells.decode {raw : RawAttribute} {a : Attribute} (h : raw.Spells a)
    (hplain : a.name.isPlain) : raw.decode = .ok a := by
  have hvalue : Utf8.decode raw.value = .ok (String.ofList (escape a.value.toList)) := by
    rw [h.value, ← Utf8.encode_ofList, Utf8.decode_encode]
  rw [RawAttribute.decode, hvalue, h.key, Name.decode_encode_text hplain]
  simp only [bind, Except.bind, Except.mapError, Reference.expand_escape]
  rfl

/-- **Attributes that were printed are decoded**, in their order. -/
theorem mapM_decode {raws : List RawAttribute} {attributes : List Attribute}
    (h : List.Forall₂ Spells raws attributes) (hplain : ∀ a ∈ attributes, a.name.isPlain) :
    raws.mapM RawAttribute.decode = .ok attributes := by
  induction h with
  | nil => rfl
  | cons hfirst _ ih =>
    obtain ⟨hname, hnames⟩ := List.forall_mem_cons.mp hplain
    rw [List.mapM_cons, hfirst.decode hname, ih hnames]
    rfl

section Scanning

variable {found : List RawAttribute}

/-- Blanks between attributes are skipped. -/
theorem scanFrom_blanks {blanks : List UInt8} (h : ∀ b ∈ blanks, isBlank b) (position : Nat)
    (rest : List UInt8) :
    scanFrom found .between position (blanks ++ rest) =
      scanFrom found .between (position + blanks.length) rest := by
  induction blanks generalizing position with
  | nil => rfl
  | cons b blanks ih =>
    obtain ⟨hb, hblanks⟩ := List.forall_mem_cons.mp h
    have hfeed : feed found .between position b = .ok (found, .between) := by
      rw [feed, if_pos hb]
    rw [List.cons_append, scanFrom, hfeed]
    dsimp only
    rw [ih hblanks, List.length_cons, Nat.add_assoc, Nat.add_comm 1]

/-- The rest of a key, up to the `=`. -/
theorem scanFrom_key {start : Nat} {seen key : List UInt8}
    (hkey : ∀ b ∈ key, b ≠ '='.toUInt8 ∧ isBlank b = false)
    (hnew : ∀ raw ∈ found, raw.key ≠ seen.reverse ++ key) (position : Nat) (rest : List UInt8) :
    scanFrom found (.key start seen) position (key ++ '='.toUInt8 :: rest) =
      scanFrom found (.beforeValue start (key.reverse ++ seen)) (position + key.length + 1)
        rest := by
  induction key generalizing seen position with
  | nil =>
    have hnone : found.find? (fun raw => raw.key = seen.reverse) = none := by
      simpa using hnew
    have hfeed : feed found (.key start seen) position '='.toUInt8 =
        .ok (found, .beforeValue start seen) := by
      rw [feed, if_pos rfl, enterValue, hnone]
      rfl
    rw [List.nil_append, scanFrom, hfeed]
    rfl
  | cons b key ih =>
    obtain ⟨⟨hequals, hblank⟩, hkey⟩ := List.forall_mem_cons.mp hkey
    have hfeed : feed found (.key start seen) position b = .ok (found, .key start (b :: seen)) := by
      rw [feed, if_neg hequals, if_neg (by rw [hblank]; exact Bool.false_ne_true)]
    have hnext : ∀ raw ∈ found, raw.key ≠ (b :: seen).reverse ++ key := by
      intro raw hraw
      rw [List.reverse_cons, List.append_assoc]
      exact hnew raw hraw
    rw [List.cons_append, scanFrom, hfeed]
    dsimp only
    rw [ih hkey hnext, List.reverse_cons, List.append_assoc, List.length_cons,
      Nat.add_assoc position, Nat.add_comm 1]
    rfl

/-- The rest of a value, up to its quote. -/
theorem scanFrom_value {start : Nat} {key seen value : List UInt8} {quote : UInt8}
    (h : quote ∉ value) (position : Nat) (rest : List UInt8) :
    scanFrom found (.value start key quote seen) position (value ++ quote :: rest) =
      scanFrom (⟨key.reverse, seen.reverse ++ value, start⟩ :: found) .between
        (position + value.length + 1) rest := by
  induction value generalizing seen position with
  | nil =>
    have hfeed : feed found (.value start key quote seen) position quote =
        .ok (⟨key.reverse, seen.reverse, start⟩ :: found, .between) := by
      rw [feed, if_pos rfl]
    rw [List.nil_append, scanFrom, hfeed, List.append_nil]
    rfl
  | cons b value ih =>
    obtain ⟨hb, hvalue⟩ := not_or.mp (mt List.mem_cons.mpr h)
    have hfeed : feed found (.value start key quote seen) position b =
        .ok (found, .value start key quote (b :: seen)) := by
      rw [feed, if_neg (Ne.symm hb)]
    rw [List.cons_append, scanFrom, hfeed]
    dsimp only
    rw [ih hvalue, List.reverse_cons, List.append_assoc, List.length_cons, Nat.add_assoc position,
      Nat.add_comm 1]
    rfl

/-- The bytes of an attribute that was printed. -/
theorem encodeChars_attributeText (a : Attribute) (quote : Quote) :
    encodeChars (attributeText a quote) = Utf8.encode a.name.text ++ '='.toUInt8 ::
      (quote.char.toUInt8 :: (encodeChars (escape a.value.toList) ++ [quote.char.toUInt8])) := by
  rw [attributeText, Utf8.encode_eq]
  simp only [Utf8.encodeChars_append, Utf8.encodeChars_cons, Utf8.encodeChars_nil,
    quote.encodeChar_char, List.append_assoc, List.cons_append, List.nil_append, List.append_nil]
  rfl

/-- The bytes of one attribute are found as an attribute that they spell. -/
theorem scanFrom_attributeText {a : Attribute} (hplain : a.name.isPlain) (quote : Quote)
    (hnew : ∀ raw ∈ found, raw.key ≠ Utf8.encode a.name.text) (position : Nat)
    (rest : List UInt8) :
    ∃ raw position', raw.Spells a ∧
      scanFrom found .between position (encodeChars (attributeText a quote) ++ rest) =
        scanFrom (raw :: found) .between position' rest := by
  have hname : ∀ b ∈ Utf8.encode a.name.text, b ≠ '='.toUInt8 ∧ isBlank b = false := fun b hb =>
    ⟨Name.ne_of_mem_bytes hplain hb (by decide) (by decide),
      isBlank_eq_false_of_mem_name hplain hb⟩
  have hne : Utf8.encode a.name.text ≠ [] := Name.encode_text_ne_nil hplain
  have hvalue : quote.char.toUInt8 ∉ encodeChars (escape a.value.toList) :=
    Utf8.not_mem_encodeChars quote.toNat_char_lt (quote.char_not_mem_escape _)
  rw [encodeChars_attributeText]
  obtain ⟨b, key, hkey⟩ := List.exists_cons_of_ne_nil hne
  rw [hkey] at hname hnew ⊢
  obtain ⟨⟨-, hfirst⟩, hlater⟩ := List.forall_mem_cons.mp hname
  -- the three parts of the attribute are scanned in turn: the key, its value, and the quotation
  -- marks around it
  have hbegin : feed found .between position b = .ok (found, .key position [b]) := by
    rw [feed, if_neg (by rw [hfirst]; exact Bool.false_ne_true)]
  have hopen : ∀ start key position, feed found (.beforeValue start key) position
      quote.char.toUInt8 = .ok (found, .value start key quote.char.toUInt8 []) := by
    intro start key position
    rw [feed, if_neg (by rw [quote.isBlank_char]; exact Bool.false_ne_true),
      if_pos quote.isQuote_char]
  let value := encodeChars (escape a.value.toList)
  have hscan : scanFrom found .between position
      (b :: key ++ '='.toUInt8 :: (quote.char.toUInt8 :: (value ++ [quote.char.toUInt8])) ++ rest) =
        scanFrom (⟨b :: key, value, position⟩ :: found) .between
          (position + 1 + key.length + 1 + 1 + value.length + 1) rest := by
    simp only [List.cons_append, List.append_assoc, List.nil_append]
    rw [scanFrom, hbegin]
    dsimp only
    rw [scanFrom_key hlater hnew, scanFrom, hopen]
    dsimp only
    rw [scanFrom_value hvalue, List.reverse_append, List.reverse_reverse]
    rfl
  exact ⟨_, _, ⟨hkey.symm, rfl⟩, hscan⟩

end Scanning

/-- **The attributes of a tag are found** in the row they are printed in. -/
theorem scanFrom_printed {attributes : List Attribute} {chars : List Char}
    (h : PrintedAttributes attributes chars) (hplain : ∀ a ∈ attributes, a.name.isPlain)
    (hnodup : (attributes.map Attribute.name).Nodup) (found : List RawAttribute)
    (hnew : ∀ raw ∈ found, ∀ a ∈ attributes, raw.key ≠ Utf8.encode a.name.text) (position : Nat) :
    ∃ raws, List.Forall₂ Spells raws attributes ∧
      scanFrom found .between position (encodeChars chars) = (found.reverse ++ raws, none) := by
  -- what was found goes in front, so the attributes come out in the order of the tag
  induction h generalizing found position with
  | @nil blanks hblanks =>
    refine ⟨[], .nil, ?_⟩
    have hbytes : ∀ b ∈ encodeChars blanks, isBlank b :=
      fun _ hb => isBlank_of_mem_encodeChars hblanks hb
    rw [← List.append_nil (encodeChars blanks), scanFrom_blanks hbytes, List.append_nil]
    rfl
  | @cons a attributes blanks rest quote hblanks _ _ ih =>
    obtain ⟨hname, hnames⟩ := List.forall_mem_cons.mp hplain
    obtain ⟨hfirst, hlater⟩ := List.nodup_cons.mp hnodup
    obtain ⟨raw, position', hraw, hscan⟩ := scanFrom_attributeText hname quote
      (fun raw hmem => hnew raw hmem a List.mem_cons_self)
      (position + (encodeChars blanks).length) (encodeChars rest)
    have hnext : ∀ other ∈ raw :: found, ∀ a' ∈ attributes,
        other.key ≠ Utf8.encode a'.name.text := by
      intro other hother a' ha'
      rcases List.mem_cons.mp hother with rfl | hother
      · -- a name that comes again would be spelled in the same way
        intro hkey
        rw [hraw.key] at hkey
        have hsame := Name.eq_of_encode_text hname (hnames a' ha') hkey
        exact hfirst (hsame ▸ List.mem_map_of_mem ha')
      · exact hnew other hother a' (List.mem_cons_of_mem _ ha')
    obtain ⟨raws, hraws, hrest⟩ := ih hnames hlater (raw :: found) hnext position'
    refine ⟨raw :: raws, .cons hraw hraws, ?_⟩
    rw [List.append_assoc, Utf8.encodeChars_append, Utf8.encodeChars_append,
      scanFrom_blanks fun _ hb => isBlank_of_mem_encodeChars hblanks hb, hscan, hrest,
      List.reverse_cons, List.append_assoc, List.singleton_append]

end RawAttribute

/-! ## The content of a start tag -/

/-- What stands behind the name does not belong to it. -/
theorem head_isBlank {attributes : List Attribute} {chars : List Char}
    (h : PrintedAttributes attributes chars) : ∀ b ∈ (encodeChars chars).head?, isBlank b := by
  have hhead : ∀ {blanks : List Char}, AreBlanks blanks →
      ∀ b ∈ (encodeChars blanks).head?, isBlank b := fun hblanks b hb =>
    isBlank_of_mem_encodeChars hblanks (List.mem_of_mem_head? hb)
  cases h with
  | nil hblanks => exact hhead hblanks
  | @cons a attributes blanks rest quote hblanks hne =>
    have hbytes : encodeChars blanks ≠ [] := Utf8.encodeChars_ne_nil hne
    rw [List.append_assoc, Utf8.encodeChars_append, List.head?_append_of_ne_nil _ hbytes]
    exact hhead hblanks

section Content

variable {name : Name} {attributes : List Attribute} {chars : List Char} (hname : name.isPlain)
  (h : PrintedAttributes attributes chars)
include hname h

/-- The name of a tag that was printed ends where the attributes begin. -/
theorem nameOf_printed : nameOf (encodeChars (name.text.toList ++ chars)) = Utf8.encode name.text ∧
    behindName (encodeChars (name.text.toList ++ chars)) = encodeChars chars := by
  have hnone : ∀ b ∈ Utf8.encode name.text, (!isBlank b) = true := fun b hb => by
    rw [isBlank_eq_false_of_mem_name hname hb, Bool.not_false]
  have hhead := head_isBlank h
  rw [Utf8.encodeChars_append, ← Utf8.encode_eq, nameOf, behindName,
    List.takeWhile_append_of_pos hnone, List.dropWhile_append_of_pos hnone]
  generalize encodeChars chars = bytes at hhead ⊢
  cases bytes with
  | nil => exact ⟨List.append_nil _, rfl⟩
  | cons b bytes =>
    have hb : isBlank b = true := hhead b rfl
    simp [hb]

/-- **A printed tag is decoded to what it was printed from.** -/
theorem decodeTag_printed (hplain : ∀ a ∈ attributes, a.name.isPlain)
    (hnodup : (attributes.map Attribute.name).Nodup) :
    decodeTag (encodeChars (name.text.toList ++ chars)) = .ok (name, attributes) := by
  obtain ⟨hnameOf, hbehind⟩ := nameOf_printed hname h
  obtain ⟨raws, hraws, hscan⟩ := RawAttribute.scanFrom_printed h hplain hnodup []
    (fun _ hmem => absurd hmem List.not_mem_nil) (Utf8.encode name.text).length
  rw [decodeTag, hnameOf, Name.decode_encode_text hname, RawAttribute.scan, hnameOf, hbehind, hscan,
    List.reverse_nil, List.nil_append]
  simp only [bind, Except.bind, Except.mapError, RawAttribute.mapM_decode hraws hplain]

end Content

end Markup

end IntervalDump
