import IntervalDump.Text.Utf8
/-!
# Faults in markup

What can be wrong with a document, as causes with the places where they were found, and their
wording. Three families stand below `Fault`: `TokenFault`, found while the bytes are cut into tags;
`AttributeFault`, found in the attributes of one tag; `ReferenceFault`, found in the value of one
attribute.
-/

namespace IntervalDump.Markup

/-- What cannot be cut into tags. -/
inductive TokenFault where
  | tagUnclosed
  /-- The input ended inside a quoted value. -/
  | quoteUnclosed (quote : Char)
  | referenceUnclosed
  | commentUnclosed
  | cdataUnclosed
  | doctypeUnclosed
  | instructionUnclosed
  /-- The input ended inside the declaration at the start of a document. -/
  | declarationUnclosed
  /-- `<!` is not followed by a comment, a character section or a document type. -/
  | markupUnknown
  | doctypeNameless
  /-- An end tag where no element is open. -/
  | endUnmatched (name : String)
  /-- An end tag that does not fit the innermost open element. -/
  | endMismatched (expected found : String)
  /-- The source failed. -/
  | sourceFailed (reason : String)
  deriving DecidableEq, Repr

def TokenFault.message : TokenFault → String
  | .tagUnclosed => "syntax error: tag not closed: `>` not found before end of input"
  | .quoteUnclosed quote =>
    s!"syntax error: attribute value not closed: `{quote}` not found before end of input"
  | .referenceUnclosed =>
    "ill-formed document: entity or character reference not closed: `;` not found before end of input"
  | .commentUnclosed => "syntax error: comment not closed: `-->` not found before end of input"
  | .cdataUnclosed => "syntax error: CDATA not closed: `]]>` not found before end of input"
  | .doctypeUnclosed => "syntax error: DOCTYPE not closed: `>` not found before end of input"
  | .instructionUnclosed =>
    "syntax error: processing instruction not closed: `?>` not found before end of input"
  | .declarationUnclosed =>
    "syntax error: XML declaration not closed: `?>` not found before end of input"
  | .markupUnknown => "syntax error: unknown or missed symbol in markup"
  | .doctypeNameless =>
    "ill-formed document: `<!DOCTYPE>` declaration does not contain a name of a document type"
  | .endUnmatched name =>
    s!"ill-formed document: close tag `</{name}>` does not match any open tag"
  | .endMismatched expected found =>
    s!"ill-formed document: expected `</{expected}>`, but `</{found}>` was found"
  | .sourceFailed reason => s!"I/O error: {reason}"

/-- What is wrong with the attributes of a tag. Positions count bytes from the first one behind the
`<` of the tag. -/
inductive AttributeFault where
  /-- A key is followed by neither `=` nor blanks and `=`. -/
  | equalsMissing (position : Nat)
  | valueMissing (position : Nat)
  | valueUnquoted (position : Nat)
  | quoteMissing (position : Nat) (quote : Char)
  /-- The key at `position` is the one at `earlier` once more. -/
  | duplicated (position earlier : Nat)
  deriving DecidableEq, Repr

def AttributeFault.message : AttributeFault → String
  | .equalsMissing position =>
    s!"position {position}: attribute key must be directly followed by `=` or space"
  | .valueMissing position => s!"position {position}: `=` must be followed by an attribute value"
  | .valueUnquoted position =>
    s!"position {position}: attribute value must be enclosed in `\"` or `'`"
  | .quoteMissing position quote =>
    s!"position {position}: missing closing quote `{quote}` in attribute value"
  | .duplicated position earlier =>
    s!"position {position}: duplicated attribute, previous declaration at position {earlier}"

/-- What is wrong with the number in a character reference. -/
inductive CodeFault where
  | signed
  | empty
  | notADigit
  /-- The number is past `2 ^ 32 - 1`. -/
  | tooLarge
  | zero
  /-- The number is that of a surrogate or past the last character. -/
  | notACharacter (code : Nat)
  deriving DecidableEq, Repr

def CodeFault.message : CodeFault → String
  | .signed => "unexpected number sign"
  | .empty => "cannot parse integer from empty string"
  | .notADigit => "invalid digit found in string"
  | .tooLarge => "number too large to fit in target type"
  | .zero => "0x0 character is not permitted in XML"
  | .notACharacter code => s!"`{code}` is not a valid codepoint"

/-- What is wrong with a reference in the value of an attribute. Places are ranges of bytes in the
value. -/
inductive ReferenceFault where
  /-- An `&` is not followed by a `;` before the next `&`. -/
  | unterminated (first last : Nat)
  | unknown (first last : Nat) (name : String)
  | code (fault : CodeFault)
  deriving DecidableEq, Repr

def ReferenceFault.message : ReferenceFault → String
  | .unterminated first last =>
    s!"Error while escaping character at range {first}..{last}: Cannot find ';' after '&'"
  | .unknown first last name => s!"at {first}..{last}: unrecognized entity `{name}`"
  | .code fault => s!"invalid character reference: {fault.message}"

/-- Why a document could not be delivered to its end. -/
inductive Fault where
  /-- The bytes up to `position` could not be cut into tags. -/
  | token (position : Nat) (fault : TokenFault)
  | attribute (fault : AttributeFault)
  /-- The input ended at `position` while `element` was open. -/
  | unclosed (element : String) (position : Nat)
  | encoding (fault : Utf8.Fault)
  | reference (fault : ReferenceFault)
  deriving DecidableEq, Repr

/-- The message that is shown for the fault. -/
def Fault.message : Fault → String
  | .token position fault => s!"XML error at byte {position}: {fault.message}"
  | .attribute fault => s!"Malformed attribute: {fault.message}"
  | .unclosed element position =>
    s!"Unclosed element <{element}> at end of input (byte {position})"
  | .encoding fault => s!"Invalid UTF-8 in element or attribute: {fault.message}"
  | .reference fault => s!"Invalid escape sequence in attribute value: {fault.message}"

end IntervalDump.Markup
