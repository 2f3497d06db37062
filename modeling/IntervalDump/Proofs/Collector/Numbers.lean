import Mathlib.Data.List.TakeWhile
import IntervalDump.Collector
import IntervalDump.Proofs.Decimal.Numeral
/-!
# The numbers that a collector reads

**Theorem** (`Collector.readNumber?_readsNumeral`): the value of an attribute is read as a number
just when it is a numeral of any length with blanks around it, and the number is that of the
numeral. What blanks there are makes no difference, but a blank inside is refused, as is every
character that numerals do not have.

The two sides are kept apart: `Text.trim` takes off the blanks at both ends and nothing else
(`Text.exists_blanks`, `Text.trim_append`), and what is left must be a text of the grammar
(`Numeral.read?_eq_some_iff`), in which no blank occurs.
-/

namespace IntervalDump

/-! ## Trimming -/

namespace Text

/-- Nothing but blanks. -/
def IsBlank (text : List Char) : Prop :=
  ∀ c ∈ text, isBlank c = true

/-- Blanks are blanks from the other end too. -/
theorem IsBlank.reverse {text : List Char} (h : IsBlank text) : IsBlank text.reverse :=
  fun c hc => h c (List.mem_reverse.mp hc)

/-- What is taken from the front of a text while it is blank is blank. -/
theorem isBlank_takeWhile (text : List Char) : IsBlank (text.takeWhile isBlank) :=
  List.all_eq_true.mp List.all_takeWhile

/-- The blanks in front end at a character that is none, whatever comes behind. -/
theorem dropWhile_append_of_exists {text : List Char} (h : ∃ c ∈ text, isBlank c = false)
    (behind : List Char) :
    (text ++ behind).dropWhile isBlank = text.dropWhile isBlank ++ behind := by
  have hne : (text.dropWhile isBlank).isEmpty = false := by
    rw [List.isEmpty_eq_false_iff, ne_eq, List.dropWhile_eq_nil_iff]
    obtain ⟨c, hc, hnot⟩ := h
    exact fun hall => Bool.false_ne_true (hnot.symm.trans (hall c hc))
  rw [List.dropWhile_append, hne, if_neg Bool.false_ne_true]

/-- What is taken off stands at the two ends and is blank. -/
theorem exists_blanks (text : List Char) :
    ∃ before behind, text = before ++ trim text ++ behind ∧ IsBlank before ∧ IsBlank behind := by
  let rest := text.dropWhile isBlank
  refine ⟨text.takeWhile isBlank, (rest.reverse.takeWhile isBlank).reverse, ?_,
    isBlank_takeWhile text, (isBlank_takeWhile rest.reverse).reverse⟩
  rw [trim, List.append_assoc, ← List.reverse_append, List.takeWhile_append_dropWhile,
    List.reverse_reverse, List.takeWhile_append_dropWhile]

/-- Of blanks, nothing is left. -/
theorem trim_of_isBlank {text : List Char} (h : IsBlank text) : trim text = [] := by
  rw [trim, List.dropWhile_eq_nil_iff.mpr h]
  rfl

/-- **Blanks at the two ends make no difference.** -/
theorem trim_append {before behind : List Char} (hbefore : IsBlank before)
    (hbehind : IsBlank behind) (text : List Char) : trim (before ++ text ++ behind) = trim text := by
  rw [trim, List.append_assoc, List.dropWhile_append_of_pos hbefore]
  by_cases hblank : IsBlank text
  · have hall : IsBlank (text ++ behind) := List.forall_mem_append.mpr ⟨hblank, hbehind⟩
    rw [List.dropWhile_eq_nil_iff.mpr hall, trim_of_isBlank hblank]
    rfl
  · have hexists : ∃ c ∈ text, isBlank c = false := by simpa [IsBlank] using hblank
    rw [dropWhile_append_of_exists hexists, List.reverse_append,
      List.dropWhile_append_of_pos hbehind.reverse, trim]

/-- A character between two that are not blank is not taken off. -/
theorem mem_trim {before behind : List Char} (hbefore : ∃ c ∈ before, isBlank c = false)
    (hbehind : ∃ c ∈ behind, isBlank c = false) (c : Char) : c ∈ trim (before ++ c :: behind) := by
  have hreverse : ∃ c ∈ behind.reverse, isBlank c = false := by simpa using hbehind
  have hbeheaded : (before ++ c :: behind).dropWhile isBlank =
      before.dropWhile isBlank ++ c :: behind := dropWhile_append_of_exists hbefore _
  rw [trim, hbeheaded, List.reverse_append, List.reverse_cons, List.append_assoc,
    dropWhile_append_of_exists hreverse]
  simp

/-- A character that is not blank is not taken off. -/
theorem mem_trim_of_not_isBlank {text : List Char} {c : Char} (hc : c ∈ text)
    (hnot : isBlank c = false) : c ∈ trim text := by
  obtain ⟨before, behind, hsplit, hbefore, hbehind⟩ := exists_blanks text
  rw [hsplit] at hc
  rcases List.mem_append.mp hc with hc | hc
  · rcases List.mem_append.mp hc with hc | hc
    · exact absurd (hnot.symm.trans (hbefore c hc)) Bool.false_ne_true
    · exact hc
  · exact absurd (hnot.symm.trans (hbehind c hc)) Bool.false_ne_true

/-- No character of a numeral is a blank. -/
theorem isBlank_of_isNumeralChar {c : Char} (h : Numeral.isNumeralChar c = true) :
    isBlank c = false := by
  obtain ⟨hlow, hhigh⟩ := Numeral.bounds_of_isNumeralChar h
  simp only [isBlank, Bool.or_eq_false_iff, Bool.and_eq_false_iff, decide_eq_false_iff_not,
    beq_eq_false_iff_ne]
  omega

/-- Where there are no blanks, none are taken away. -/
theorem dropWhile_of_forall_not {text : List Char} (h : ∀ c ∈ text, isBlank c = false) :
    text.dropWhile isBlank = text := by
  apply List.dropWhile_eq_self_iff.mpr
  intro hlength
  rw [h _ (List.getElem_mem hlength)]
  exact Bool.false_ne_true

/-- A numeral has no blanks to take off. -/
theorem trim_of_isText {n : Numeral} {text : List Char} (h : n.IsText text) : trim text = text := by
  have hnot : ∀ c ∈ text, isBlank c = false :=
    fun c hc => isBlank_of_isNumeralChar (h.isNumeralChar c hc)
  have hreverse : ∀ c ∈ text.reverse, isBlank c = false :=
    fun c hc => hnot c (List.mem_reverse.mp hc)
  rw [trim, dropWhile_of_forall_not hnot, dropWhile_of_forall_not hreverse, List.reverse_reverse]

end Text

/-! ## Reading a number -/

namespace Collector

/-- **A number is read of a text if a numeral is left of it**, and it is the number of that numeral.
-/
theorem readNumber?_eq_some_iff {text : String} {x : Float} :
    readNumber? text = some x ↔
      ∃ n : Numeral, n.IsText (Text.trim text.toList) ∧ n.toFloat = x := by
  rw [readNumber?, Option.map_eq_some_iff]
  simp only [Numeral.read?_eq_some_iff]

/-- The text is a numeral with blanks before it and behind it, any number of them. -/
structure Surrounds (text before numeral behind : List Char) : Prop where
  split : text = before ++ numeral ++ behind
  before : Text.IsBlank before
  behind : Text.IsBlank behind

/-- Blanks around a text are taken away with its own. -/
theorem Surrounds.trim_eq {text before numeral behind : List Char}
    (h : Surrounds text before numeral behind) : Text.trim text = Text.trim numeral := by
  rw [h.split, Text.trim_append h.before h.behind]

/-- A text is a numeral in blanks if it is one without them. -/
theorem exists_surrounds_iff {text : List Char} {n : Numeral} :
    (∃ before numeral behind, Surrounds text before numeral behind ∧ n.IsText numeral) ↔
      n.IsText (Text.trim text) := by
  constructor
  · rintro ⟨before, numeral, behind, hsurrounds, hnumeral⟩
    rwa [hsurrounds.trim_eq, Text.trim_of_isText hnumeral]
  · intro h
    obtain ⟨before, behind, hsplit, hbefore, hbehind⟩ := Text.exists_blanks text
    exact ⟨before, Text.trim text, behind, ⟨hsplit, hbefore, hbehind⟩, h⟩

/-- Which texts are read as numbers. -/
structure ReadsNumeral (text : String) : Prop where
  isSome_iff : (readNumber? text).isSome ↔ ∃ before numeral behind,
    Surrounds text.toList before numeral behind ∧ IsNumeral numeral
  /-- The number is that of the numeral. -/
  eq_some_iff : ∀ x, readNumber? text = some x ↔ ∃ before numeral behind,
    Surrounds text.toList before numeral behind ∧ ∃ n : Numeral, n.IsText numeral ∧ n.toFloat = x
  /-- Blanks around a text make no difference, whatever the text is. -/
  surrounded : ∀ before inner behind, Surrounds text.toList before inner behind →
    readNumber? text = readNumber? (String.ofList inner)
  /-- A blank between two characters that are not blank is refused. -/
  inside : ∀ before c behind, text.toList = before ++ c :: behind → Text.isBlank c = true →
    (∃ d ∈ before, Text.isBlank d = false) → (∃ d ∈ behind, Text.isBlank d = false) →
      readNumber? text = none
  /-- A character that is not one of numerals is refused anywhere, unless it is a blank. -/
  foreign : ∀ c ∈ text.toList, Text.isBlank c = false → Numeral.isNumeralChar c = false →
    readNumber? text = none

/-- A character that no numeral has, and that is no blank at either end, spoils a number. -/
theorem readNumber?_eq_none_of_mem_trim {text : String} {c : Char}
    (hmem : c ∈ Text.trim text.toList) (hc : Numeral.isNumeralChar c = false) :
    readNumber? text = none := by
  apply Option.eq_none_iff_forall_ne_some.mpr
  intro x hx
  obtain ⟨n, hn, -⟩ := readNumber?_eq_some_iff.mp hx
  exact Bool.false_ne_true (hc.symm.trans (hn.isNumeralChar c hmem))

/-- **A text is read as a number just when it is a numeral with blanks around it.** -/
theorem readNumber?_readsNumeral (text : String) : ReadsNumeral text where
  isSome_iff := by
    simp only [Option.isSome_iff_exists, readNumber?_eq_some_iff, ← exists_surrounds_iff]
    constructor
    · rintro ⟨x, n, ⟨before, numeral, behind, hsurrounds, hn⟩, -⟩
      exact ⟨before, numeral, behind, hsurrounds, n, hn⟩
    · rintro ⟨before, numeral, behind, hsurrounds, n, hn⟩
      exact ⟨n.toFloat, n, ⟨before, numeral, behind, hsurrounds, hn⟩, rfl⟩
  eq_some_iff x := by
    rw [readNumber?_eq_some_iff]
    simp only [← exists_surrounds_iff]
    constructor
    · rintro ⟨n, ⟨before, numeral, behind, hsurrounds, hn⟩, hx⟩
      exact ⟨before, numeral, behind, hsurrounds, n, hn, hx⟩
    · rintro ⟨before, numeral, behind, hsurrounds, n, hn, hx⟩
      exact ⟨n, ⟨before, numeral, behind, hsurrounds, hn⟩, hx⟩
  surrounded before inner behind h := by
    rw [readNumber?, h.trim_eq, readNumber?, String.toList_ofList]
  inside before c behind hsplit hc hbefore hbehind := by
    have hmem : c ∈ Text.trim text.toList := by
      rw [hsplit]
      exact Text.mem_trim hbefore hbehind c
    refine readNumber?_eq_none_of_mem_trim hmem ?_
    by_contra hchar
    rw [Bool.not_eq_false] at hchar
    exact Bool.false_ne_true ((Text.isBlank_of_isNumeralChar hchar).symm.trans hc)
  foreign c hc hnot hforeign :=
    readNumber?_eq_none_of_mem_trim (Text.mem_trim_of_not_isBlank hc hnot) hforeign

/-- Texts that are nearly numerals. -/
example : [".", "+", "1e", ".e1", "1 0", "1_0", "0x10", "٣", "\ufeff1", "in", ""].all
    fun text => (readNumber? text).isNone := by
  decide +kernel

end Collector

end IntervalDump
