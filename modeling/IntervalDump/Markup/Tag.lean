import IntervalDump.Event
import IntervalDump.Markup.RawAttribute
import IntervalDump.Markup.Reference
/-!
# From raw tags to names and attributes

A tag is decoded as a whole or not at all. Its faults are looked for in the order of its bytes,
attribute by attribute: in each one first its shape, then its value, then its key.
-/

namespace IntervalDump

namespace Name

/-- The bytes before the first colon, if there is one, and the bytes behind it. -/
def split (raw : List UInt8) : Option (List UInt8) × List UInt8 :=
  match raw.dropWhile (· != ':'.toUInt8) with
  | [] => (none, raw)
  | _ :: behind => (some (raw.takeWhile (· != ':'.toUInt8)), behind)

/-- A name from its bytes; the two sides of the colon are texts of their own. -/
def decode (raw : List UInt8) : Except Utf8.Fault Name :=
  match split raw with
  | (none, behind) => (Utf8.decode behind).map fun localName => ⟨none, localName⟩
  | (some before, behind) => do
    let qualifier ← Utf8.decode before
    let localName ← Utf8.decode behind
    return ⟨some qualifier, localName⟩

end Name

namespace Markup

/-- An attribute from its bytes: the encoding of the value, its references, then the key. -/
def RawAttribute.decode (raw : RawAttribute) : Except Fault Attribute := do
  let text ← (Utf8.decode raw.value).mapError .encoding
  let value ← (Reference.expand text).mapError .reference
  let name ← (Name.decode raw.key).mapError .encoding
  return ⟨name, value⟩

/-- The name and the attributes of a start tag with this content. -/
def decodeTag (content : List UInt8) : Except Fault (Name × List Attribute) := do
  let name ← (Name.decode (nameOf content)).mapError .encoding
  let (raw, fault?) := RawAttribute.scan content
  let attributes ← raw.mapM RawAttribute.decode
  match fault? with
  | some fault => .error (.attribute fault)
  | none => .ok (name, attributes)

end Markup

end IntervalDump
