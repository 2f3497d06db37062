import IntervalDump.Markup.Byte
/-!
# The end of a document type declaration

A document type declaration may hold quoted literals and an internal subset in brackets, with markup
of its own; the `>` that ends it is the first one outside all of these. `Doctype.feed` follows the
declaration byte by byte. Nothing that is declared there is ever used.

A comment in the subset is the one place where it matters how the bytes were delivered. Between two
refills only a number of dashes is remembered, and a dash at the end of a refill adds to those
remembered from the end of the refill before, whatever stands between them. `Doctype.endRefill`
is that rule.
-/

namespace IntervalDump.Markup

/-- Where in a document type declaration the next byte stands. -/
inductive Doctype where
  /-- Before the internal subset, perhaps inside a quoted literal. -/
  | outside (quote : Option UInt8)
  /-- In the internal subset, between its markup. -/
  | subset
  /-- In the subset, behind a `<` and the bytes `read`, which may still open a known markup. -/
  | opening (read : List UInt8)
  /-- In a processing instruction of the subset; `mark` tells whether the last byte was `?`. -/
  | instruction (mark : Bool)
  /-- In a comment of the subset, behind this many dashes; `kept` is their number that was
  remembered when the refill began. Both are counted up to two. -/
  | comment (kept dashes : Nat)
  /-- In a declaration of the subset that may hold quoted literals. -/
  | declaration (quote : Option UInt8)
  /-- In other markup of the subset, where quotes have no meaning. -/
  | other
  /-- Behind the internal subset, where quotes have no meaning. -/
  | behind
  deriving DecidableEq, Repr

namespace Doctype

/-- What may stand behind a `<` in the internal subset, and how it goes on. -/
def openings : List (List UInt8 × Doctype) :=
  [(ascii ['?'], .instruction false),
   (ascii ['!', '-', '-'], .comment 0 0),
   (ascii ['!', 'E', 'N', 'T', 'I', 'T', 'Y'], .declaration none),
   (ascii ['!', 'A', 'T', 'T', 'L', 'I', 'S', 'T'], .declaration none),
   (ascii ['!', 'N', 'O', 'T', 'A', 'T', 'I', 'O', 'N'], .declaration none)]

/-- The next byte of markup in the subset that is not known. -/
def feedOther (b : UInt8) : Doctype :=
  if b = '>'.toUInt8 then .subset else .other

/-- The bytes `read` stand behind a `<` in the subset, the last of them being `b`. -/
def feedOpening (read : List UInt8) (b : UInt8) : Doctype :=
  match openings.find? fun entry => entry.1 = read with
  | some (_, next) => next
  | none =>
    if openings.any fun entry => read.isPrefixOf entry.1 then .opening read else feedOther b

/-- Where the byte behind `b` stands; `none` if `b` ends the declaration. -/
def feed (d : Doctype) (b : UInt8) : Option Doctype :=
  match d with
  | .outside (some quote) => some (.outside (if b = quote then none else some quote))
  | .outside none =>
    if b = '>'.toUInt8 then none
    else if b = '['.toUInt8 then some .subset
    else some (.outside (if isQuote b then some b else none))
  | .subset =>
    if b = ']'.toUInt8 then some .behind
    else if b = '<'.toUInt8 then some (.opening [])
    else some .subset
  | .opening read => some (feedOpening (read ++ [b]) b)
  | .instruction mark =>
    if b = '>'.toUInt8 && mark then some .subset else some (.instruction (b = '?'.toUInt8))
  | .comment kept dashes =>
    if b = '>'.toUInt8 && dashes = 2 then some .subset
    else if b = '-'.toUInt8 then some (.comment kept (min 2 (dashes + 1)))
    else some (.comment kept 0)
  | .declaration (some quote) => some (.declaration (if b = quote then none else some quote))
  | .declaration none =>
    if b = '>'.toUInt8 then some .subset
    else some (.declaration (if isQuote b then some b else none))
  | .other => some (feedOther b)
  | .behind => if b = '>'.toUInt8 then none else some .behind

/-- How many dashes are remembered when a refill ends behind `dashes` of them: a single one adds to
those that were `kept` from the refills before. -/
def remembered (kept dashes : Nat) : Nat :=
  if dashes = 1 then min 2 (kept + 1) else dashes

/-- The refill ends here. -/
def endRefill (d : Doctype) : Doctype :=
  match d with
  | .comment kept dashes => .comment (remembered kept dashes) (remembered kept dashes)
  | _ => d

end Doctype

end IntervalDump.Markup
