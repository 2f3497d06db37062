import IntervalDump.Proofs.Markup.PrintedTag
/-!
# Cutting a printed document into tags

* **What stands between tags is passed over** (`Lexer.passes_skipped`).
* **A tag is kept up to its end** (`Lexer.passes_startTag`, `Lexer.passes_endTag`): the values of
  the attributes are quoted, so nothing in them ends the tag.
* **The `>` completes the tag** (`Lexer.feed_startTag`, `Lexer.feed_emptyTag`,
  `Lexer.feed_endTag`).
-/

namespace IntervalDump.Markup.Lexer

open Utf8 (encodeChars)

variable {opened : List (List UInt8)}

/-- **What may stand between tags is passed over.** -/
theorem passes_skipped {chars : List Char} (h : Skipped chars) :
    Passes opened .text [] (encodeChars chars) .text [] := by
  induction h with
  | nil => exact .nil .text []
  | text hopen hreference _ ih =>
    rw [Utf8.encodeChars_cons]
    exact (passes_text hopen hreference).append ih
  | comment htext _ ih =>
    rw [Utf8.encodeChars_append]
    exact (passes_comment htext).append ih
  | cdata htext _ ih =>
    rw [Utf8.encodeChars_append]
    exact (passes_cdata htext).append ih
  | instruction hfirst htext _ ih =>
    rw [Utf8.encodeChars_append]
    exact (passes_instruction hfirst htext).append ih

/-! ## Characters that are kept -/

/-- The bytes of the characters are kept, and the mode is the same behind them. -/
def Collects (opened : List (List UInt8)) (mode : Mode) (chars : List Char) : Prop :=
  ∀ seen, Passes opened mode seen (encodeChars chars) mode ((encodeChars chars).reverse ++ seen)

/-- What is collected in two parts is collected. -/
theorem Collects.append {mode : Mode} {first second : List Char} (h : Collects opened mode first)
    (hsecond : Collects opened mode second) : Collects opened mode (first ++ second) := by
  intro seen
  have hall := (h seen).append (hsecond _)
  rwa [← List.append_assoc, ← List.reverse_append, ← Utf8.encodeChars_append] at hall

/-- Bytes that are kept one by one are kept. -/
theorem passes_keep {mode : Mode} (hmode : mode.isDoctype = false) {bytes : List UInt8}
    (hkeep : ∀ b ∈ bytes, ∀ seen position, (⟨mode, seen, opened, position⟩ : Lexer).feed b =
      .quiet ⟨mode, b :: seen, opened, position + 1⟩) (seen : List UInt8) :
    Passes opened mode seen bytes mode (bytes.reverse ++ seen) := by
  induction bytes generalizing seen with
  | nil => exact .nil mode seen
  | cons b bytes ih =>
    obtain ⟨hb, hbytes⟩ := List.forall_mem_cons.mp hkeep
    rw [List.reverse_cons, List.append_assoc]
    exact .cons (hb seen) hmode (ih hbytes (b :: seen))

/-- The characters neither end a tag nor begin a value. -/
structure IsPlainInTag (chars : List Char) : Prop where
  noEnd : '>' ∉ chars
  noSingle : '\'' ∉ chars
  noDouble : '"' ∉ chars

/-- Plain characters do not end a tag, and open no quotation. -/
theorem IsPlainInTag.ne {chars : List Char} (h : IsPlainInTag chars) {b : UInt8}
    (hb : b ∈ encodeChars chars) : b ≠ '>'.toUInt8 ∧ isQuote b = false := by
  have hsingle : b ≠ '\''.toUInt8 := Utf8.ne_of_mem_encodeChars hb (by decide) h.noSingle
  have hdouble : b ≠ '"'.toUInt8 := Utf8.ne_of_mem_encodeChars hb (by decide) h.noDouble
  refine ⟨Utf8.ne_of_mem_encodeChars hb (by decide) h.noEnd, ?_⟩
  rw [isQuote, Bool.or_eq_false_iff]
  exact ⟨beq_eq_false_iff_ne.mpr hsingle, beq_eq_false_iff_ne.mpr hdouble⟩

/-- Plain characters behind plain ones are plain. -/
theorem IsPlainInTag.append {first second : List Char} (h : IsPlainInTag first)
    (hsecond : IsPlainInTag second) : IsPlainInTag (first ++ second) where
  noEnd hmem := (List.mem_append.mp hmem).elim h.noEnd hsecond.noEnd
  noSingle hmem := (List.mem_append.mp hmem).elim h.noSingle hsecond.noSingle
  noDouble hmem := (List.mem_append.mp hmem).elim h.noDouble hsecond.noDouble

/-- The characters of a name are plain. -/
theorem isPlainInTag_name {name : Name} (h : name.isPlain) : IsPlainInTag name.text.toList where
  noEnd := Name.not_mem_text h (by decide)
  noSingle := Name.not_mem_text h (by decide)
  noDouble := Name.not_mem_text h (by decide)

/-- Blanks are plain. -/
theorem isPlainInTag_blanks {blanks : List Char} (h : AreBlanks blanks) :
    IsPlainInTag blanks where
  noEnd hmem := absurd (h '>' hmem) (by decide)
  noSingle hmem := absurd (h '\'' hmem) (by decide)
  noDouble hmem := absurd (h '"' hmem) (by decide)

/-- Plain characters of a start tag are collected. -/
theorem collects_startTag {chars : List Char} (h : IsPlainInTag chars) :
    Collects opened (.startTag none) chars := by
  refine passes_keep rfl fun b hb seen position => ?_
  obtain ⟨hend, hquote⟩ := h.ne hb
  simp only [feed, feedStart, if_neg hend, hquote, Bool.false_eq_true, if_false, keep]

/-- Plain characters of an end tag are collected. -/
theorem collects_endTag {chars : List Char} (h : IsPlainInTag chars) :
    Collects opened (.endTag none) chars := by
  refine passes_keep rfl fun b hb seen position => ?_
  obtain ⟨hend, hquote⟩ := h.ne hb
  simp only [feed, feedEnd, if_neg hend, hquote, Bool.false_eq_true, if_false, keep]

/-- A quoted value is kept, whatever else is in it. -/
theorem collects_quoted {quote : Quote} {chars : List Char} (h : quote.char ∉ chars) :
    Collects opened (.startTag none) ([quote.char] ++ chars ++ [quote.char]) := by
  intro seen
  have hbytes : encodeChars ([quote.char] ++ chars ++ [quote.char]) =
      quote.char.toUInt8 :: (encodeChars chars ++ [quote.char.toUInt8]) := by
    rw [List.append_assoc, List.singleton_append, Utf8.encodeChars_cons, Utf8.encodeChars_append,
      Utf8.encodeChars_cons, quote.encodeChar_char]
    rfl
  have hend : quote.char.toUInt8 ≠ '>'.toUInt8 := by cases quote <;> decide
  have hopen : ∀ position,
      (⟨.startTag none, seen, opened, position⟩ : Lexer).feed quote.char.toUInt8 =
        .quiet ⟨.startTag (some quote.char.toUInt8), quote.char.toUInt8 :: seen, opened,
          position + 1⟩ := by
    intro position
    simp only [feed, feedStart, if_neg hend, quote.isQuote_char, if_true, keep]
  have hinside : Passes opened (.startTag (some quote.char.toUInt8)) (quote.char.toUInt8 :: seen)
      (encodeChars chars) (.startTag (some quote.char.toUInt8))
      ((encodeChars chars).reverse ++ quote.char.toUInt8 :: seen) := by
    refine passes_keep rfl (fun b hb seen position => ?_) _
    have hne : b ≠ quote.char.toUInt8 := Utf8.ne_of_mem_encodeChars hb quote.toNat_char_lt h
    simp only [feed, feedStart, if_neg hne, keep]
  have hclose : ∀ seen position,
      (⟨.startTag (some quote.char.toUInt8), seen, opened, position⟩ : Lexer).feed
        quote.char.toUInt8 =
          .quiet ⟨.startTag none, quote.char.toUInt8 :: seen, opened, position + 1⟩ := by
    intro seen position
    simp only [feed, feedStart, if_true, keep]
  have hall := Passes.cons hopen rfl (hinside.append (.single (hclose _) rfl))
  rw [hbytes]
  simpa using hall

/-! ## The bytes of a tag before its end -/

/-- **Attributes that were printed are collected**, with all that stands between quotation marks. -/
theorem collects_attributes {attributes : List Attribute} {chars : List Char}
    (h : PrintedAttributes attributes chars) (hplain : ∀ a ∈ attributes, a.name.isPlain) :
    Collects opened (.startTag none) chars := by
  induction h with
  | nil hblanks => exact collects_startTag (isPlainInTag_blanks hblanks)
  | @cons a attributes blanks rest quote hblanks _ _ ih =>
    obtain ⟨hname, hnames⟩ := List.forall_mem_cons.mp hplain
    have hequals : IsPlainInTag ['='] := ⟨by decide, by decide, by decide⟩
    have hkey := (isPlainInTag_name hname).append hequals
    have hattribute : Collects opened (.startTag none) (attributeText a quote) :=
      (collects_startTag hkey).append (collects_quoted (quote.char_not_mem_escape a.value.toList))
    exact ((collects_startTag (isPlainInTag_blanks hblanks)).append hattribute).append (ih hnames)

/-- The first byte behind a `<` begins a start tag if it begins no other markup. -/
theorem feed_opened {b : UInt8} (hbang : b ≠ '!'.toUInt8) (hslash : b ≠ '/'.toUInt8)
    (hquestion : b ≠ '?'.toUInt8) (position : Nat) :
    (⟨.opened, [], opened, position⟩ : Lexer).feed b =
      (⟨.startTag none, [], opened, position⟩ : Lexer).feed b := by
  simp only [feed, if_neg hbang, if_neg hslash, if_neg hquestion]
  rfl

/-- **A start tag is kept up to its end**: the name and what follows it. -/
theorem passes_startTag {name : Name} (hname : name.isPlain) {chars : List Char}
    (h : Collects opened (.startTag none) chars) :
    Passes opened .text [] (encodeChars (['<'] ++ (name.text.toList ++ chars))) (.startTag none)
      (encodeChars (name.text.toList ++ chars)).reverse := by
  have hcontent := (collects_startTag (isPlainInTag_name hname)).append h []
  obtain ⟨b, more, hbytes⟩ :=
    List.exists_cons_of_ne_nil (Utf8.encodeChars_ne_nil (Name.toList_text_ne_nil hname))
  have hb : b ∈ Utf8.encode name.text := by
    rw [Utf8.encode_eq, hbytes]
    exact List.mem_cons_self
  have hbang : b ≠ '!'.toUInt8 := Name.ne_of_mem_bytes hname hb (by decide) (by decide)
  have hslash : b ≠ '/'.toUInt8 := Name.ne_of_mem_bytes hname hb (by decide) (by decide)
  have hquestion : b ≠ '?'.toUInt8 := Name.ne_of_mem_bytes hname hb (by decide) (by decide)
  rw [List.append_nil, Utf8.encodeChars_append, hbytes] at hcontent
  rw [Utf8.encodeChars_append ['<'], Utf8.encodeChars_append name.text.toList, hbytes]
  refine .cons (fun _ => rfl) rfl ?_
  cases hcontent with
  | cons hfeed hnext hrest =>
    refine .cons (fun position => ?_) hnext hrest
    rw [feed_opened hbang hslash hquestion, hfeed]

/-- **An end tag is kept up to its end.** -/
theorem passes_endTag {chars : List Char} (h : IsPlainInTag chars) :
    Passes opened .text [] (encodeChars (['<', '/'] ++ chars)) (.endTag none)
      ((encodeChars chars).reverse ++ ['/'.toUInt8]) := by
  rw [Utf8.encodeChars_append]
  exact .cons (fun _ => rfl) rfl (.cons (fun _ => rfl) rfl (collects_endTag h _))

/-! ## The end of a tag -/

/-- A row of attributes ends with a blank or a quote. -/
theorem getLast?_printed {attributes : List Attribute} {chars : List Char}
    (h : PrintedAttributes attributes chars) : chars.getLast? ≠ some '/' := by
  induction h with
  | nil hblanks =>
    intro hlast
    exact absurd (hblanks '/' (List.mem_of_getLast? hlast)) (by decide)
  | @cons a attributes blanks rest quote _ _ _ ih =>
    cases rest with
    | nil =>
      have hlast : (blanks ++ attributeText a quote ++ []).getLast? = some quote.char := by
        rw [List.append_nil, attributeText, ← List.append_assoc, ← List.append_assoc]
        exact List.getLast?_concat
      rw [hlast]
      cases quote <;> decide
    | cons c rest =>
      rwa [List.getLast?_append_of_ne_nil _ (List.cons_ne_nil c rest)]

/-- The content of a start tag does not end as that of an empty tag does. -/
theorem getLast?_content {name : Name} (hname : name.isPlain) {attributes : List Attribute}
    {chars : List Char} (h : PrintedAttributes attributes chars) :
    (encodeChars (name.text.toList ++ chars)).getLast? ≠ some '/'.toUInt8 := by
  intro hbyte
  have hlast := Utf8.getLast?_of_encodeChars (by decide) hbyte
  cases chars with
  | nil =>
    rw [List.append_nil] at hlast
    exact Name.not_mem_text hname (by decide) (List.mem_of_getLast? hlast)
  | cons c rest =>
    rw [List.getLast?_append_of_ne_nil _ (List.cons_ne_nil c rest)] at hlast
    exact getLast?_printed h hlast

/-- The end of a start tag completes it. -/
theorem feed_startTag {content : List UInt8} (hne : content ≠ [])
    (hlast : content.getLast? ≠ some '/'.toUInt8) (position : Nat) :
    (⟨.startTag none, content.reverse, opened, position⟩ : Lexer).feed '>'.toUInt8 =
      .token (.start content) ⟨.text, [], nameOf content :: opened, position + 1⟩ := by
  obtain ⟨first, last, rfl⟩ := List.eq_nil_or_concat content |>.resolve_left hne
  have hslash : last ≠ '/'.toUInt8 := by simpa using hlast
  simp [feed, feedStart, hslash, markup, pass]

/-- The end of an empty tag completes it, without the slash. -/
theorem feed_emptyTag (content : List UInt8) (position : Nat) :
    (⟨.startTag none, (content ++ ['/'.toUInt8]).reverse, opened, position⟩ : Lexer).feed
      '>'.toUInt8 = .token (.empty content) ⟨.text, [], opened, position + 1⟩ := by
  simp [feed, feedStart, pass]

/-- The blanks at the end of an end tag do not belong to the name. -/
theorem endName_append {raw blanks : List UInt8} (hraw : raw ≠ [])
    (hname : ∀ b ∈ raw, isBlank b = false) (hblanks : ∀ b ∈ blanks, isBlank b) :
    endName (raw ++ blanks) = raw := by
  obtain ⟨first, last, rfl⟩ := List.eq_nil_or_concat raw |>.resolve_left hraw
  have hlast : isBlank last = false := hname last (by simp)
  have hall : (first.concat last ++ blanks).all isBlank = false := by
    simp [hlast]
  have hreverse : ∀ b ∈ blanks.reverse, isBlank b := fun b hb => hblanks b (List.mem_reverse.mp hb)
  rw [endName, hall, if_neg Bool.false_ne_true, List.reverse_append,
    List.dropWhile_append_of_pos hreverse, List.concat_eq_append, List.reverse_append,
    List.reverse_singleton, List.singleton_append, List.dropWhile_cons_of_neg (by simp [hlast])]
  simp

/-- **The end tag of the innermost element completes it.** -/
theorem feed_endTag {name : Name} (hname : name.isPlain) {blanks : List Char}
    (hblanks : AreBlanks blanks) (outer : List (List UInt8)) (position : Nat) :
    (⟨.endTag none, (encodeChars (name.text.toList ++ blanks)).reverse ++ ['/'.toUInt8],
      Utf8.encode name.text :: outer, position⟩ : Lexer).feed '>'.toUInt8 =
        .token (.finish (Utf8.encode name.text)) ⟨.text, [], outer, position + 1⟩ := by
  have hend : endName (encodeChars (name.text.toList ++ blanks)) = Utf8.encode name.text := by
    rw [Utf8.encodeChars_append, ← Utf8.encode_eq]
    exact endName_append (Name.encode_text_ne_nil hname)
      (fun _ hb => isBlank_eq_false_of_mem_name hname hb)
      fun _ hb => isBlank_of_mem_encodeChars hblanks hb
  simp [feed, feedEnd, markup, closeElement, hend, pass]

end IntervalDump.Markup.Lexer
