import IntervalDump.Markup.Byte
import IntervalDump.Markup.Fault
/-!
# The attributes of a tag, as bytes

`RawAttribute.scan` cuts what follows the name in a tag into attributes. It stops at the first
mistake; the attributes before it are still given. Nothing is said about the bytes of keys and
values here: every first byte of a key belongs to it, even `=`, and a value holds everything up to
its closing quote.
-/

namespace IntervalDump.Markup

/-- An attribute as it stands in a tag, with the position of its key. -/
structure RawAttribute where
  key : List UInt8
  value : List UInt8
  /-- Where the key begins in the tag. -/
  position : Nat
  deriving DecidableEq, Repr

namespace RawAttribute

/-- What the next byte of a tag belongs to. Bytes of keys and values are kept last first. -/
inductive Place where
  /-- Blanks before a key. -/
  | between
  /-- A key that began at `start`. -/
  | key (start : Nat) (key : List UInt8)
  /-- Blanks behind a key. -/
  | afterKey (start : Nat) (key : List UInt8)
  /-- Blanks behind an `=`. -/
  | beforeValue (start : Nat) (key : List UInt8)
  | value (start : Nat) (key : List UInt8) (quote : UInt8) (value : List UInt8)

/-- The `=` behind a key: it must be a key that the tag does not have yet. -/
def enterValue (found : List RawAttribute) (start : Nat) (key : List UInt8) :
    Except AttributeFault Place :=
  match found.find? fun a => a.key = key.reverse with
  | some earlier => .error (.duplicated start earlier.position)
  | none => .ok (.beforeValue start key)

/-- What the end of the tag means at a place. -/
def atEnd (position : Nat) : Place → Option AttributeFault
  | .between => none
  | .key .. | .afterKey .. => some (.equalsMissing position)
  | .beforeValue .. => some (.valueMissing position)
  | .value _ _ quote _ => some (.quoteMissing position (Char.ofNat quote.toNat))

/-- One byte, at `position` of the tag; `found` holds the attributes before it, the last first. -/
def feed (found : List RawAttribute) (place : Place) (position : Nat) (b : UInt8) :
    Except AttributeFault (List RawAttribute × Place) :=
  match place with
  | .between =>
    if isBlank b then .ok (found, .between) else .ok (found, .key position [b])
  | .key start key =>
    if b = '='.toUInt8 then (enterValue found start key).map (found, ·)
    else if isBlank b then .ok (found, .afterKey start key)
    else .ok (found, .key start (b :: key))
  | .afterKey start key =>
    if isBlank b then .ok (found, .afterKey start key)
    else if b = '='.toUInt8 then (enterValue found start key).map (found, ·)
    else .error (.equalsMissing position)
  | .beforeValue start key =>
    if isBlank b then .ok (found, .beforeValue start key)
    else if isQuote b then .ok (found, .value start key b [])
    else .error (.valueUnquoted position)
  | .value start key quote value =>
    if b = quote then .ok (⟨key.reverse, value.reverse, start⟩ :: found, .between)
    else .ok (found, .value start key quote (b :: value))

/-- The attributes in the rest of a tag that begins at `position`, and the first mistake. -/
def scanFrom (found : List RawAttribute) (place : Place) (position : Nat) :
    List UInt8 → List RawAttribute × Option AttributeFault
  | [] => (found.reverse, atEnd position place)
  | b :: bytes =>
    match feed found place position b with
    | .ok (found, place) => scanFrom found place (position + 1) bytes
    | .error fault => (found.reverse, some fault)

/-- The attributes of a tag with this content, and the first mistake in them. -/
def scan (content : List UInt8) : List RawAttribute × Option AttributeFault :=
  scanFrom [] .between (nameOf content).length (behindName content)

end RawAttribute

end IntervalDump.Markup
