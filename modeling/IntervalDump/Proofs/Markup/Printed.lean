import IntervalDump.Event
/-!
# Texts that elements are printed to

A document is printed from a forest of elements (`Forest`), and in many ways: `Printed` relates a
forest to every text it may have.

* **Tags**: a start tag and an end tag around what is inside, or one tag for both if nothing is.
* **Attributes** (`PrintedAttributes`): blanks before each one, either kind of quotes, and the
  characters that have a meaning in markup as entities (`escape`).
* **Between tags** (`Skipped`): text, comments, character sections and processing instructions.

The events that a forest stands for (`Forest.events`) do not depend on how it is printed.
-/

namespace IntervalDump

/-! ## Names and elements -/

namespace Name

/-- A character that names are made of. -/
def isWordChar (c : Char) : Bool :=
  c.isAlphanum || c == '-' || c == '_' || c == '.'

/-- A letter, and behind it letters, digits, `-`, `_` and `.`; all of them are ASCII characters. -/
def isWord (text : List Char) : Bool :=
  text.head?.any Char.isAlpha && text.all isWordChar

/-- The local name is a word, and so is the qualifier if there is one. -/
def isPlain (name : Name) : Bool :=
  (name.qualifier.all fun qualifier => isWord qualifier.toList) && isWord name.localName.toList

end Name

/-- An element that can be printed. The values of its attributes may be any texts. -/
structure Element where
  name : Name
  attributes : List Attribute
  name_plain : name.isPlain
  attributes_plain : ∀ a ∈ attributes, a.name.isPlain
  names_nodup : (attributes.map Attribute.name).Nodup

/-- Elements in a row, each with the elements inside it. -/
inductive Forest where
  | nil
  | cons (element : Element) (inside behind : Forest)

/-- The starts and ends of the elements, in the order of the document. -/
def Forest.events : Forest → List Event
  | .nil => []
  | .cons element inside behind =>
    .startElement element.name element.attributes :: inside.events ++
      .endElement element.name :: behind.events

namespace Markup

/-! ## Tags -/

/-- Spaces, tabs and line ends. -/
def AreBlanks (text : List Char) : Prop :=
  ∀ c ∈ text, c ∈ [' ', '\t', '\r', '\n']

instance (text : List Char) : Decidable (AreBlanks text) :=
  List.decidableBAll (fun c : Char => c ∈ [' ', '\t', '\r', '\n']) text

/-- There are four blanks. -/
theorem AreBlanks.cases {text : List Char} (h : AreBlanks text) {c : Char} (hc : c ∈ text) :
    c = ' ' ∨ c = '\t' ∨ c = '\r' ∨ c = '\n' := by
  simpa using h c hc

/-- A character of a value as it is printed. -/
def escapeChar (c : Char) : List Char :=
  if c = '&' then ['&', 'a', 'm', 'p', ';']
  else if c = '<' then ['&', 'l', 't', ';']
  else if c = '>' then ['&', 'g', 't', ';']
  else if c = '"' then ['&', 'q', 'u', 'o', 't', ';']
  else if c = '\'' then ['&', 'a', 'p', 'o', 's', ';']
  else [c]

/-- The value with references in the place of what must not stand there. -/
def escape (value : List Char) : List Char :=
  value.flatMap escapeChar

/-- What a value may be quoted with. -/
inductive Quote where
  | single
  | double
  deriving DecidableEq, Repr

/-- The quotation mark itself. -/
def Quote.char : Quote → Char
  | .single => '\''
  | .double => '"'

/-- An attribute with its value between quotation marks. -/
def attributeText (a : Attribute) (quote : Quote) : List Char :=
  a.name.text.toList ++ ['='] ++ ([quote.char] ++ escape a.value.toList ++ [quote.char])

/-- What stands behind the name in a start tag: the attributes, each behind at least one blank. -/
inductive PrintedAttributes : List Attribute → List Char → Prop
  | nil {blanks : List Char} (hblanks : AreBlanks blanks) : PrintedAttributes [] blanks
  | cons {a : Attribute} {attributes : List Attribute} {blanks rest : List Char} (quote : Quote)
      (hblanks : AreBlanks blanks) (hne : blanks ≠ []) (hrest : PrintedAttributes attributes rest) :
      PrintedAttributes (a :: attributes) (blanks ++ attributeText a quote ++ rest)

/-- The tag that starts an element. -/
def startTag (name : Name) (attributes : List Char) : List Char :=
  ['<'] ++ (name.text.toList ++ attributes) ++ ['>']

/-- The tag of an element without content. -/
def emptyTag (name : Name) (attributes : List Char) : List Char :=
  ['<'] ++ (name.text.toList ++ attributes) ++ ['/', '>']

/-- The tag that ends an element, with blanks behind the name. -/
def endTag (name : Name) (blanks : List Char) : List Char :=
  ['<', '/'] ++ (name.text.toList ++ blanks) ++ ['>']

/-! ## Between tags -/

/-- What may stand between tags. Of the markup, only what ends it must not stand in it. -/
inductive Skipped : List Char → Prop
  | nil : Skipped []
  | text {c : Char} {rest : List Char} (hopen : c ≠ '<') (hreference : c ≠ '&')
      (hrest : Skipped rest) : Skipped (c :: rest)
  | comment {text rest : List Char} (htext : ¬ ['-', '-', '>'] <:+: text) (hrest : Skipped rest) :
      Skipped (['<', '!', '-', '-'] ++ text ++ ['-', '-', '>'] ++ rest)
  | cdata {text rest : List Char} (htext : ¬ [']', ']', '>'] <:+: text) (hrest : Skipped rest) :
      Skipped (['<', '!', '[', 'C', 'D', 'A', 'T', 'A', '['] ++ text ++ [']', ']', '>'] ++ rest)
  | instruction {text rest : List Char} (hfirst : ¬ ['>'] <+: text) (htext : ¬ ['?', '>'] <:+: text)
      (hrest : Skipped rest) : Skipped (['<', '?'] ++ text ++ ['?', '>'] ++ rest)

/-! ## Documents -/

/-- The text may be printed from the forest. -/
inductive Printed : Forest → List Char → Prop
  | nil {text : List Char} (h : Skipped text) : Printed .nil text
  | element {e : Element} {inside behind : Forest}
      {before attributes within blanks rest : List Char} (hbefore : Skipped before)
      (hattributes : PrintedAttributes e.attributes attributes) (hinside : Printed inside within)
      (hblanks : AreBlanks blanks) (hbehind : Printed behind rest) :
      Printed (.cons e inside behind)
        (before ++ (startTag e.name attributes ++ within ++ endTag e.name blanks ++ rest))
  | empty {e : Element} {behind : Forest} {before attributes rest : List Char}
      (hbefore : Skipped before) (hattributes : PrintedAttributes e.attributes attributes)
      (hbehind : Printed behind rest) :
      Printed (.cons e .nil behind) (before ++ (emptyTag e.name attributes ++ rest))

/-- Behind a character that opens no markup, the rest is skipped too. -/
theorem Skipped.of_cons {c : Char} {rest : List Char} (hopen : c ≠ '<')
    (h : Skipped (c :: rest)) : Skipped rest := by
  generalize hall : c :: rest = all at h
  cases h with
  | nil => cases hall
  | text _ _ hrest =>
    obtain ⟨-, rfl⟩ := List.cons.inj hall
    exact hrest
  | comment => exact absurd (List.cons.inj hall).1 hopen
  | cdata => exact absurd (List.cons.inj hall).1 hopen
  | instruction => exact absurd (List.cons.inj hall).1 hopen

/-- What stands before a tag goes on to the tag if it does not begin with it. -/
theorem Skipped.exists_of_append_eq {c : Char} {rest before tag : List Char} (hopen : c ≠ '<')
    (hbefore : Skipped before) (h : c :: rest = before ++ '<' :: tag) :
    ∃ earlier, Skipped earlier ∧ rest = earlier ++ '<' :: tag := by
  cases before with
  | nil => exact absurd (List.cons.inj h).1 hopen
  | cons first earlier =>
    obtain ⟨rfl, hrest⟩ := List.cons.inj h
    exact ⟨earlier, hbefore.of_cons hopen, hrest⟩

/-- A character of text at the beginning of a document does not belong to its elements. -/
theorem Printed.of_cons {forest : Forest} {c : Char} {rest : List Char} (hopen : c ≠ '<')
    (h : Printed forest (c :: rest)) : Printed forest rest := by
  generalize hall : c :: rest = all at h
  cases h with
  | nil hskipped =>
    subst hall
    exact .nil (hskipped.of_cons hopen)
  | element hbefore hattributes hinside hblanks hbehind =>
    obtain ⟨earlier, hearlier, rfl⟩ := hbefore.exists_of_append_eq hopen hall
    exact .element hearlier hattributes hinside hblanks hbehind
  | empty hbefore hattributes hbehind =>
    obtain ⟨earlier, hearlier, rfl⟩ := hbefore.exists_of_append_eq hopen hall
    exact .empty hearlier hattributes hbehind

end Markup

end IntervalDump
