/-!
# Events: a dump as a sequence of starts and ends

A document is delivered as events: its start, the starts and ends of its elements, its end. Names
have an optional qualifier before their first colon; everything in a dump is recognized by the part
behind it, the local name.
-/

namespace IntervalDump

/-- The name of an element or an attribute, with the qualifier before its colon. -/
structure Name where
  qualifier : Option String
  localName : String
  deriving DecidableEq, Repr

namespace Name

/-- A name without a qualifier. -/
def ofLocal (localName : String) : Name :=
  ⟨none, localName⟩

/-- A name as it is written in a tag. -/
def text (name : Name) : String :=
  match name.qualifier with
  | some qualifier => s!"{qualifier}:{name.localName}"
  | none => name.localName

/-- Whether the local name is `tag`; the qualifier does not matter. -/
def isNamed (name : Name) (tag : String) : Bool :=
  name.localName == tag

end Name

/-- An attribute with its value, references expanded. -/
structure Attribute where
  name : Name
  value : String
  deriving DecidableEq, Repr

/-- The value of the first attribute with this local name. -/
def Attribute.find? (attributes : List Attribute) (localName : String) : Option String :=
  (attributes.find? fun a => a.name.isNamed localName).map Attribute.value

/-- What a handler is called with. -/
inductive Event where
  | startDocument
  | endDocument
  | startElement (name : Name) (attributes : List Attribute)
  | endElement (name : Name)
  deriving DecidableEq, Repr

namespace Event

/-- The start of an element whose names have no qualifier. -/
def start (tag : String) (attributes : List (String × String)) : Event :=
  .startElement (.ofLocal tag) (attributes.map fun (name, value) => ⟨.ofLocal name, value⟩)

/-- The end of an element whose name has no qualifier. -/
def finish (tag : String) : Event :=
  .endElement (.ofLocal tag)

/-- The event starts an element. -/
def isStart : Event → Bool
  | .startElement .. => true
  | _ => false

/-- The name of the element that starts or ends. -/
def elementName? : Event → Option Name
  | .startElement name _ => some name
  | .endElement name => some name
  | _ => none

end Event

end IntervalDump
