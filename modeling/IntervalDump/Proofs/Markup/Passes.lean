import IntervalDump.Markup.Lexer
import IntervalDump.Proofs.Text.Encoding
/-!
# Markup that is passed over

`Lexer.Passes` says that bytes lead a lexer from one mode to another without completing a tag and
without a fault, wherever a refill ends among them. It is shown here of everything that may stand
between tags:

* text without `<` and `&` (`Lexer.passes_text`);
* comments (`Lexer.passes_comment`), character sections (`Lexer.passes_cdata`) and processing
  instructions (`Lexer.passes_instruction`) whose text does not hold what ends them.

The last three are read in the same way: bytes are kept up to a `>` behind certain bytes
(`Lexer.passes_markup`).
-/

namespace IntervalDump.Markup.Lexer

open Utf8 (encodeChars IsAscii)

/-- The mode is that of a document type declaration. -/
def Mode.isDoctype : Mode → Bool
  | .doctype _ => true
  | _ => false

/-- Outside a document type declaration, the end of a refill does nothing. -/
theorem endRefill_of_not_doctype {l : Lexer} (h : l.mode.isDoctype = false) : l.endRefill = l := by
  obtain ⟨mode, seen, opened, position⟩ := l
  cases mode with
  | doctype place => cases h
  | _ => rfl

/-- The bytes lead from one mode to another, and complete nothing. In none of the modes does it
matter whether a refill ends. -/
inductive Passes (opened : List (List UInt8)) :
    Mode → List UInt8 → List UInt8 → Mode → List UInt8 → Prop
  | nil (mode : Mode) (seen : List UInt8) : Passes opened mode seen [] mode seen
  | cons {mode next last : Mode} {seen seenNext seenLast : List UInt8} {b : UInt8}
      {bytes : List UInt8}
      (hfeed : ∀ position, (⟨mode, seen, opened, position⟩ : Lexer).feed b =
        .quiet ⟨next, seenNext, opened, position + 1⟩)
      (hnext : next.isDoctype = false) (hrest : Passes opened next seenNext bytes last seenLast) :
      Passes opened mode seen (b :: bytes) last seenLast

section Passing

variable {opened : List (List UInt8)} {mode next last : Mode} {seen seenNext seenLast : List UInt8}

/-- What is passed in two parts is passed. -/
theorem Passes.append {first second : List UInt8} (h : Passes opened mode seen first next seenNext)
    (hsecond : Passes opened next seenNext second last seenLast) :
    Passes opened mode seen (first ++ second) last seenLast := by
  induction h with
  | nil => exact hsecond
  | cons hfeed hnext _ ih => exact .cons hfeed hnext (ih hsecond)

/-- A single byte is passed if it gives nothing. -/
theorem Passes.single {b : UInt8}
    (hfeed : ∀ position, (⟨mode, seen, opened, position⟩ : Lexer).feed b =
      .quiet ⟨next, seenNext, opened, position + 1⟩)
    (hnext : next.isDoctype = false) : Passes opened mode seen [b] next seenNext :=
  .cons hfeed hnext (.nil next seenNext)

/-! ## Text -/

/-- Text without markup and references is passed. -/
theorem passes_textBytes {bytes : List UInt8}
    (h : ∀ b ∈ bytes, b ≠ '<'.toUInt8 ∧ b ≠ '&'.toUInt8) :
    Passes opened .text [] bytes .text [] := by
  induction bytes with
  | nil => exact .nil .text []
  | cons b bytes ih =>
    obtain ⟨hopen, hreference⟩ := h b List.mem_cons_self
    have hfeed : ∀ position, (⟨.text, [], opened, position⟩ : Lexer).feed b =
        .quiet ⟨.text, [], opened, position + 1⟩ := by
      intro position
      simp only [feed, if_neg hopen, if_neg hreference, pass]
    exact .cons hfeed rfl (ih fun b hb => h b (List.mem_cons_of_mem _ hb))

/-- A character that begins neither markup nor a reference is passed over. -/
theorem passes_text {c : Char} (hopen : c ≠ '<') (hreference : c ≠ '&') :
    Passes opened .text [] (String.utf8EncodeChar c) .text [] := by
  refine passes_textBytes fun b hb => ⟨?_, ?_⟩
  · rintro rfl
    exact hopen (Utf8.eq_of_mem_encodeChar (by decide) hb)
  · rintro rfl
    exact hreference (Utf8.eq_of_mem_encodeChar (by decide) hb)

/-! ## Markup that a certain `>` ends -/

/-- Bytes are kept as long as no `>` stands behind what `ends` asks for. -/
theorem passes_until (ends : List UInt8 → Bool) (hmode : mode.isDoctype = false)
    (hkeep : ∀ seen b position, ¬ (b = '>'.toUInt8 ∧ ends seen) →
      (⟨mode, seen, opened, position⟩ : Lexer).feed b =
        .quiet ⟨mode, b :: seen, opened, position + 1⟩)
    {bytes : List UInt8}
    (hnot : ∀ before behind, bytes = before ++ '>'.toUInt8 :: behind →
      ¬ ends (before.reverse ++ seen)) :
    Passes opened mode seen bytes mode (bytes.reverse ++ seen) := by
  induction bytes generalizing seen with
  | nil => exact .nil mode seen
  | cons b bytes ih =>
    have hrest : Passes opened mode (b :: seen) bytes mode (bytes.reverse ++ b :: seen) := by
      refine ih fun before behind hsplit => ?_
      have hlonger := hnot (b :: before) behind (by rw [hsplit, List.cons_append])
      rwa [List.reverse_cons, List.append_assoc] at hlonger
    rw [List.reverse_cons, List.append_assoc]
    refine .cons (fun position => hkeep seen b position ?_) hmode hrest
    rintro ⟨rfl, hends⟩
    exact hnot [] bytes rfl hends

/-- Markup that is passed over: its beginning, what is kept behind it, and the `>` that ends it. -/
theorem passes_markup (ends : List UInt8 → Bool) {first inside : List UInt8}
    (hmode : mode.isDoctype = false) (hfirst : Passes opened .text [] first mode seen)
    (hkeep : ∀ seen b position, ¬ (b = '>'.toUInt8 ∧ ends seen) →
      (⟨mode, seen, opened, position⟩ : Lexer).feed b =
        .quiet ⟨mode, b :: seen, opened, position + 1⟩)
    (hnot : ∀ before behind, inside = before ++ '>'.toUInt8 :: behind →
      ¬ ends (before.reverse ++ seen))
    (hend : ∀ position, (⟨mode, inside.reverse ++ seen, opened, position⟩ : Lexer).feed
      '>'.toUInt8 = .quiet ⟨.text, [], opened, position + 1⟩) :
    Passes opened .text [] (first ++ (inside ++ ['>'.toUInt8])) .text [] :=
  hfirst.append ((passes_until ends hmode hkeep hnot).append (.single hend rfl))

/-- What stands before a `>` that is not in `closing` stands before one in the text. -/
theorem exists_of_append_eq {text closing before behind : List UInt8} {b : UInt8}
    (hb : b ∉ closing) (h : text ++ closing = before ++ b :: behind) :
    ∃ later, text = before ++ b :: later := by
  rcases List.append_eq_append_iff.mp h with ⟨more, -, hclosing⟩ | ⟨more, htext, hmore⟩
  · exact absurd (hclosing ▸ List.mem_append_right more List.mem_cons_self) hb
  · cases more with
    | nil =>
      rw [List.nil_append] at hmore
      exact absurd (hmore ▸ List.mem_cons_self) hb
    | cons b' more =>
      obtain ⟨rfl, -⟩ := List.cons.inj hmore
      exact ⟨more, htext⟩

/-- What stands behind a byte that is not in `opening` stands behind it in the text. -/
theorem exists_of_opening_append_eq {opening text before behind : List UInt8} {b : UInt8}
    (hb : b ∉ opening) (h : opening ++ text = before ++ b :: behind) :
    ∃ earlier, before = opening ++ earlier ∧ text = earlier ++ b :: behind := by
  rcases List.append_eq_append_iff.mp h with ⟨more, hbefore, htext⟩ | ⟨more, hopening, hmore⟩
  · exact ⟨more, hbefore, htext⟩
  · cases more with
    | nil => exact ⟨[], by rw [hopening, List.append_nil, List.append_nil], hmore.symm⟩
    | cons b' more =>
      obtain ⟨rfl, -⟩ := List.cons.inj hmore
      exact absurd (hopening ▸ List.mem_append_right before List.mem_cons_self) hb

/-- A byte of a comment is kept, unless it ends the comment. -/
theorem feed_comment {b : UInt8} (position : Nat) (hb : ¬ (b = '>'.toUInt8 ∧ endsComment seen)) :
    (⟨.comment, seen, opened, position⟩ : Lexer).feed b =
      .quiet ⟨.comment, b :: seen, opened, position + 1⟩ := by
  simp only [feed, if_neg hb, keep]

/-- A byte of a character data section is kept, unless it ends the section. -/
theorem feed_cdata {b : UInt8} (position : Nat) (hb : ¬ (b = '>'.toUInt8 ∧ endsCdata seen)) :
    (⟨.cdata, seen, opened, position⟩ : Lexer).feed b =
      .quiet ⟨.cdata, b :: seen, opened, position + 1⟩ := by
  simp only [feed, if_neg hb, keep]

/-- A byte of an instruction is kept, unless it ends the instruction. -/
theorem feed_instruction {b : UInt8} (position : Nat)
    (hb : ¬ (b = '>'.toUInt8 ∧ endsInstruction seen)) :
    (⟨.instruction, seen, opened, position⟩ : Lexer).feed b =
      .quiet ⟨.instruction, b :: seen, opened, position + 1⟩ := by
  simp only [feed, if_neg hb, keep]

/-- The bytes `<!` and the next one, which decides what they begin. -/
theorem passes_declared {b : UInt8} (hmode : mode.isDoctype = false)
    (hfeed : ∀ position, (⟨.declared, ['!'.toUInt8], opened, position⟩ : Lexer).feed b =
      .quiet ⟨mode, [b, '!'.toUInt8], opened, position + 1⟩) :
    Passes opened .text [] (ascii ['<', '!'] ++ [b]) mode [b, '!'.toUInt8] :=
  .cons (fun _ => rfl) rfl (.cons (fun _ => rfl) rfl (.single hfeed hmode))

/-- The dashes that end a comment are not those that begin it. -/
theorem exists_of_endsComment {before : List UInt8}
    (h : endsComment (before.reverse ++ ascii ['-', '!'])) :
    ∃ b first, before = b :: (first ++ ascii ['-', '-']) := by
  rcases hreverse : before.reverse with _ | ⟨a, _ | ⟨a', rest⟩⟩
  · rw [hreverse] at h
    exact absurd h (by decide)
  · rw [hreverse] at h
    simp [endsComment, ascii] at h
  · rw [hreverse] at h
    simp only [List.cons_append, endsComment, Bool.and_eq_true, beq_iff_eq, decide_eq_true_eq,
      List.length_append] at h
    obtain ⟨⟨rfl, rfl⟩, hlength⟩ := h
    have hne : rest ≠ [] := by
      rintro rfl
      simp [ascii] at hlength
    obtain ⟨b, first, hrest⟩ := List.exists_cons_of_ne_nil (List.reverse_ne_nil_iff.mpr hne)
    refine ⟨b, first, ?_⟩
    rw [← List.reverse_reverse before, hreverse, List.reverse_cons, List.reverse_cons, hrest]
    simp [ascii]

/-- **A comment is passed over** if its text does not hold what ends it. -/
theorem passes_comment {text : List Char} (h : ¬ ['-', '-', '>'] <:+: text) :
    Passes opened .text []
      (encodeChars (['<', '!', '-', '-'] ++ text ++ ['-', '-', '>'])) .text [] := by
  let inside := '-'.toUInt8 :: (encodeChars text ++ ascii ['-', '-'])
  have hfirst : Passes opened .text [] (ascii ['<', '!', '-']) .comment (ascii ['-', '!']) :=
    passes_declared rfl fun _ => rfl
  have hnot : ∀ before behind, inside = before ++ '>'.toUInt8 :: behind →
      ¬ endsComment (before.reverse ++ ascii ['-', '!']) := by
    intro before behind hsplit hends
    obtain ⟨b, first, rfl⟩ := exists_of_endsComment hends
    obtain ⟨-, hrest⟩ := List.cons.inj hsplit
    obtain ⟨later, htext⟩ := exists_of_append_eq (by decide) hrest
    refine h (Utf8.infix_of_encodeChars (by decide) ⟨first, later, ?_⟩)
    rw [htext]
    simp [ascii]
  have hend : ∀ position, (⟨.comment, inside.reverse ++ ascii ['-', '!'], opened, position⟩ :
      Lexer).feed '>'.toUInt8 = .quiet ⟨.text, [], opened, position + 1⟩ := by
    intro position
    have hends : endsComment (inside.reverse ++ ascii ['-', '!']) := by
      simp [inside, endsComment, ascii]
    have hbegun : (ascii ['!', '-', '-']).isPrefixOf
        (inside.reverse ++ ascii ['-', '!']).reverse := by
      simp [inside, ascii]
    simp only [feed, hends, markup, hbegun, passMarkup, pass, and_self, if_true]
  have hall := passes_markup endsComment rfl hfirst (fun _ _ position => feed_comment position)
    hnot hend
  rw [Utf8.encodeChars_between (by decide) (by decide)]
  simpa [inside, ascii] using hall

/-- Only two brackets let a character data section end. -/
theorem exists_of_endsCdata {before : List UInt8}
    (h : endsCdata (before.reverse ++ ascii ['[', '!'])) :
    ∃ first, before = first ++ ascii [']', ']'] := by
  rcases hreverse : before.reverse with _ | ⟨a, _ | ⟨a', rest⟩⟩
  · rw [hreverse] at h
    exact absurd h (by decide)
  · rw [hreverse] at h
    simp only [ascii, List.map, List.cons_append, List.nil_append, endsCdata, Bool.and_eq_true,
      beq_iff_eq] at h
    exact absurd h.2 (by decide)
  · rw [hreverse] at h
    simp only [List.cons_append, endsCdata, Bool.and_eq_true, beq_iff_eq] at h
    obtain ⟨rfl, rfl⟩ := h
    refine ⟨rest.reverse, ?_⟩
    rw [← List.reverse_reverse before, hreverse, List.reverse_cons, List.reverse_cons]
    simp [ascii]

/-- **A character section is passed over** if its text does not hold what ends it. -/
theorem passes_cdata {text : List Char} (h : ¬ [']', ']', '>'] <:+: text) :
    Passes opened .text []
      (encodeChars (['<', '!', '[', 'C', 'D', 'A', 'T', 'A', '['] ++ text ++ [']', ']', '>']))
      .text [] := by
  let keyword := ascii ['C', 'D', 'A', 'T', 'A', '[']
  let inside := keyword ++ (encodeChars text ++ ascii [']', ']'])
  have hfirst : Passes opened .text [] (ascii ['<', '!', '[']) .cdata (ascii ['[', '!']) :=
    passes_declared rfl fun _ => rfl
  -- no `>` before the last one ends the section: it would stand behind two brackets of the text
  have hnot : ∀ before behind, inside = before ++ '>'.toUInt8 :: behind →
      ¬ endsCdata (before.reverse ++ ascii ['[', '!']) := by
    intro before behind hsplit hends
    obtain ⟨first, rfl⟩ := exists_of_endsCdata hends
    have hbrackets : keyword ++ (encodeChars text ++ ascii [']', ']']) =
        first ++ ']'.toUInt8 :: (']'.toUInt8 :: '>'.toUInt8 :: behind) := by
      show inside = _
      rw [hsplit, List.append_assoc]
      rfl
    obtain ⟨earlier, -, hrest⟩ := exists_of_opening_append_eq (by decide) hbrackets
    have hclosing : encodeChars text ++ ascii [']', ']'] =
        (earlier ++ ascii [']', ']']) ++ '>'.toUInt8 :: behind := by
      simpa [ascii] using hrest
    obtain ⟨later, htext⟩ := exists_of_append_eq (by decide) hclosing
    refine h (Utf8.infix_of_encodeChars (by decide) ⟨earlier, later, ?_⟩)
    rw [htext]
    simp [ascii]
  have hend : ∀ position, (⟨.cdata, inside.reverse ++ ascii ['[', '!'], opened, position⟩ :
      Lexer).feed '>'.toUInt8 = .quiet ⟨.text, [], opened, position + 1⟩ := by
    intro position
    have hends : endsCdata (inside.reverse ++ ascii ['[', '!']) := by
      simp [inside, endsCdata, ascii]
    have hbegun : (ascii ['!', '[', 'C', 'D', 'A', 'T', 'A', '[']).isPrefixOf
        (inside.reverse ++ ascii ['[', '!']).reverse := by
      simp [inside, keyword, ascii]
    simp only [feed, hends, markup, hbegun, passMarkup, pass, and_self, if_true]
  have hall := passes_markup endsCdata rfl hfirst (fun _ _ position => feed_cdata position)
    hnot hend
  rw [Utf8.encodeChars_between (by decide) (by decide)]
  simpa [inside, keyword, ascii] using hall

/-- **A processing instruction is passed over** if its text does not hold what ends it, nor begins
with a `>`. -/
theorem passes_instruction {text : List Char} (hfirst : ¬ ['>'] <+: text)
    (h : ¬ ['?', '>'] <:+: text) :
    Passes opened .text [] (encodeChars (['<', '?'] ++ text ++ ['?', '>'])) .text [] := by
  let inside := encodeChars text ++ ascii ['?']
  have hbegin : Passes opened .text [] (ascii ['<', '?']) .instruction (ascii ['?']) :=
    .cons (fun _ => rfl) rfl (.single (fun _ => rfl) rfl)
  have hnot : ∀ before behind, inside = before ++ '>'.toUInt8 :: behind →
      ¬ endsInstruction (before.reverse ++ ascii ['?']) := by
    intro before behind hsplit hends
    obtain ⟨later, htext⟩ := exists_of_append_eq (by decide) hsplit
    rcases List.eq_nil_or_concat before with rfl | ⟨earlier, last, rfl⟩
    · exact hfirst (Utf8.prefix_of_encodeChars (by decide) ⟨later, by rw [htext]; rfl⟩)
    · rw [List.concat_eq_append] at htext hends
      have hlast : last = '?'.toUInt8 := by
        simpa [endsInstruction] using hends
      refine h (Utf8.infix_of_encodeChars (by decide) ⟨earlier, later, ?_⟩)
      rw [htext, hlast]
      simp [ascii]
  have hend : ∀ position, (⟨.instruction, inside.reverse ++ ascii ['?'], opened, position⟩ :
      Lexer).feed '>'.toUInt8 = .quiet ⟨.text, [], opened, position + 1⟩ := by
    intro position
    have hends : endsInstruction (inside.reverse ++ ascii ['?']) := by
      simp [inside, endsInstruction, ascii]
    have hlength : 2 ≤ (inside.reverse ++ ascii ['?']).length := by
      simp [inside, ascii]
    simp only [feed, hends, hlength, passMarkup, pass, and_self, if_true, decide_true]
  have hall := passes_markup endsInstruction rfl hbegin
    (fun _ _ position => feed_instruction position) hnot hend
  rw [Utf8.encodeChars_between (by decide) (by decide)]
  simpa [inside, ascii] using hall

end Passing

end IntervalDump.Markup.Lexer
