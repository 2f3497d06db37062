import IntervalDump.Markup.Doctype
import IntervalDump.Markup.Fault
/-!
# Cutting bytes into tags

`Lexer.feed` takes a document one byte at a time. Most bytes complete nothing; a `>` may complete a
tag, whose raw bytes are then given as a `Token`; and a byte may show that the document is faulty.
Text, references, comments, character sections, processing instructions and document types are
passed over. The lexer keeps the raw names of the open elements, so that an end tag is given only
if its name is that of the innermost open element, byte for byte.

The bytes come in refills, and `Lexer.endRefill` tells the lexer where one ends. Apart from comments
inside a document type declaration, it does not matter how the bytes were cut into refills.

`Lexer.finish?` tells what is wrong if the input ends now, apart from open elements.
-/

namespace IntervalDump.Markup

/-- A tag, as raw bytes. -/
inductive Token where
  /-- A start tag: its name and what follows it. -/
  | start (content : List UInt8)
  /-- The tag of an element without content: as a start tag, without the `/` at its end. -/
  | empty (content : List UInt8)
  /-- The name in an end tag. -/
  | finish (name : List UInt8)
  deriving DecidableEq, Repr

namespace Lexer

/-- What the next byte belongs to. -/
inductive Mode where
  | text
  /-- An entity or character reference in text. -/
  | reference
  /-- Markup of which only the `<` was read. -/
  | opened
  /-- Markup of which only `<!` was read. -/
  | declared
  | comment
  | cdata
  | doctype (place : Doctype)
  | instruction
  /-- A start tag, perhaps inside a quoted value. -/
  | startTag (quote : Option UInt8)
  | endTag (quote : Option UInt8)
  deriving DecidableEq, Repr

end Lexer

/-- Where the reading of markup stands. -/
structure Lexer where
  mode : Lexer.Mode := .text
  /-- The bytes of the markup being read that stand behind its `<`, the last one first. -/
  seen : List UInt8 := []
  /-- The raw names of the open elements, the innermost first. -/
  opened : List (List UInt8) := []
  /-- How many bytes were read. -/
  position : Nat := 0
  deriving DecidableEq, Repr

namespace Lexer

/-- What one byte leads to. -/
inductive Step where
  /-- No tag is complete yet. -/
  | quiet (next : Lexer)
  /-- The byte completes a tag. -/
  | token (token : Token) (next : Lexer)
  /-- The document is faulty at `position`. -/
  | fault (position : Nat) (fault : TokenFault)

/-- The byte was read and belongs to text or to nothing. -/
def pass (l : Lexer) (mode : Mode) : Lexer :=
  { l with mode, seen := [], position := l.position + 1 }

/-- The byte was read and belongs to the markup. -/
def keep (l : Lexer) (mode : Mode) (b : UInt8) : Lexer :=
  { l with mode, seen := b :: l.seen, position := l.position + 1 }

/-- The bytes of the markup behind its `<`, in reading order. -/
def markup (l : Lexer) : List UInt8 :=
  l.seen.reverse

/-- A comment ends at the first `-->` whose dashes are not those of `<!--`; the byte before `>` is
the last of `seen`. -/
def endsComment : List UInt8 → Bool
  | a :: b :: rest => a == '-'.toUInt8 && b == '-'.toUInt8 && 3 ≤ rest.length
  | _ => false

/-- The bytes, the last one first, end a character data section if a `>` follows. -/
def endsCdata : List UInt8 → Bool
  | a :: b :: _ => a == ']'.toUInt8 && b == ']'.toUInt8
  | _ => false

/-- The bytes, the last one first, end an instruction if a `>` follows. -/
def endsInstruction : List UInt8 → Bool
  | a :: _ => a == '?'.toUInt8
  | _ => false

/-- The name in an end tag: the blanks at its end do not belong to it, unless there is nothing
else. -/
def endName (content : List UInt8) : List UInt8 :=
  if content.all isBlank then content
  else (content.reverse.dropWhile isBlank).reverse

/-- A byte of a start tag. -/
def feedStart (l : Lexer) (quote : Option UInt8) (b : UInt8) : Step :=
  match quote with
  | some q => .quiet (l.keep (.startTag (if b = q then none else some q)) b)
  | none =>
    if b = '>'.toUInt8 then
      match l.seen with
      | [] => .token (.start []) { l.pass .text with opened := [] :: l.opened }
      | last :: rest =>
        if last = '/'.toUInt8 then .token (.empty rest.reverse) (l.pass .text)
        else .token (.start l.markup) { l.pass .text with opened := nameOf l.markup :: l.opened }
    else .quiet (l.keep (.startTag (if isQuote b then some b else none)) b)

/-- The `>` of an end tag with this name. -/
def closeElement (l : Lexer) (name : List UInt8) : Step :=
  match l.opened with
  | [] => .fault (l.position + 1) (.endUnmatched (shown name))
  | innermost :: rest =>
    if innermost = name then .token (.finish name) { l.pass .text with opened := rest }
    else .fault (l.position + 1) (.endMismatched (shown innermost) (shown name))

/-- A byte of an end tag. -/
def feedEnd (l : Lexer) (quote : Option UInt8) (b : UInt8) : Step :=
  match quote with
  | some q => .quiet (l.keep (.endTag (if b = q then none else some q)) b)
  | none =>
    if b = '>'.toUInt8 then l.closeElement (endName (l.markup.drop 1))
    else .quiet (l.keep (.endTag (if isQuote b then some b else none)) b)

/-- The `>` of markup that is passed over: it must have the right beginning. -/
def passMarkup (l : Lexer) (wellBegun : Bool) (fault : TokenFault) : Step :=
  if wellBegun then .quiet (l.pass .text) else .fault (l.position + 1) fault

/-- The `>` of a document type declaration. -/
def closeDoctype (l : Lexer) : Step :=
  let keyword := ascii ['!', 'D', 'O', 'C', 'T', 'Y', 'P', 'E']
  let content := l.markup
  if keyword.isPrefixOf (content.map upper) then
    if (content.drop keyword.length).all isBlank then .fault (l.position + 1) .doctypeNameless
    else .quiet (l.pass .text)
  else .fault (l.position + 1) .doctypeUnclosed

/-- The next byte of a document. -/
def feed (l : Lexer) (b : UInt8) : Step :=
  match l.mode with
  | .text =>
    if b = '<'.toUInt8 then .quiet (l.pass .opened)
    else if b = '&'.toUInt8 then .quiet (l.pass .reference)
    else .quiet (l.pass .text)
  | .reference =>
    if b = ';'.toUInt8 then .quiet (l.pass .text)
    else if b = '&'.toUInt8 ∨ b = '<'.toUInt8 then .fault l.position .referenceUnclosed
    else .quiet (l.pass .reference)
  | .opened =>
    if b = '!'.toUInt8 then .quiet (l.keep .declared b)
    else if b = '/'.toUInt8 then .quiet (l.keep (.endTag none) b)
    else if b = '?'.toUInt8 then .quiet (l.keep .instruction b)
    else l.feedStart none b
  | .declared =>
    if b = '-'.toUInt8 then .quiet (l.keep .comment b)
    else if b = '['.toUInt8 then .quiet (l.keep .cdata b)
    else if upper b = 'D'.toUInt8 then .quiet (l.keep (.doctype (.outside none)) b)
    else .fault (l.position - 2) .markupUnknown
  | .comment =>
    if b = '>'.toUInt8 ∧ endsComment l.seen then
      l.passMarkup ((ascii ['!', '-', '-']).isPrefixOf l.markup) .commentUnclosed
    else .quiet (l.keep .comment b)
  | .cdata =>
    if b = '>'.toUInt8 ∧ endsCdata l.seen then
      l.passMarkup ((ascii ['!', '[', 'C', 'D', 'A', 'T', 'A', '[']).isPrefixOf l.markup)
        .cdataUnclosed
    else .quiet (l.keep .cdata b)
  | .doctype place =>
    match place.feed b with
    | some next => .quiet (l.keep (.doctype next) b)
    | none => l.closeDoctype
  | .instruction =>
    if b = '>'.toUInt8 ∧ endsInstruction l.seen then
      l.passMarkup (2 ≤ l.seen.length) .instructionUnclosed
    else .quiet (l.keep .instruction b)
  | .startTag quote => l.feedStart quote b
  | .endTag quote => l.feedEnd quote b

/-- The refill ends here. -/
def endRefill (l : Lexer) : Lexer :=
  match l.mode with
  | .doctype place => { l with mode := .doctype place.endRefill }
  | _ => l

/-- Whether the bytes behind a `<` begin the declaration at the start of a document. -/
def isDeclaration (markup : List UInt8) : Bool :=
  let keyword := ascii ['?', 'x', 'm', 'l']
  keyword.isPrefixOf markup &&
    match markup.drop keyword.length with
    | [] => true
    | b :: _ => isBlank b || b == '?'.toUInt8

/-- Where the input stands if it ends or fails now. A `<` or `<!` at its very end does not
count. -/
def stand (l : Lexer) : Nat :=
  match l.mode with
  | .opened => l.position - 1
  | .declared => l.position - 2
  | _ => l.position

/-- What is wrong with the bytes if the input ends now. -/
def finish? (l : Lexer) : Option TokenFault :=
  match l.mode with
  | .text => none
  | .reference => some .referenceUnclosed
  | .opened => some .tagUnclosed
  | .declared => some .markupUnknown
  | .comment => some .commentUnclosed
  | .cdata => some .cdataUnclosed
  | .doctype _ => some .doctypeUnclosed
  | .instruction =>
    some (if isDeclaration l.markup then .declarationUnclosed else .instructionUnclosed)
  | .startTag none | .endTag none => some .tagUnclosed
  | .startTag (some quote) | .endTag (some quote) =>
    some (.quoteUnclosed (Char.ofNat quote.toNat))

end Lexer

end IntervalDump.Markup
