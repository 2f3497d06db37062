/-!
# UTF-8: reading bytes as text

Names and values arrive as bytes. This module holds

* `Utf8.Fault`, the place and the size of the first mistake in a byte text, and its wording;
* `Utf8.fault`, which finds that place by walking the bytes once;
* `Utf8.decode`, which gives the text or its first fault. No byte is ever replaced or dropped:
  a text that is given has exactly the bytes that were read.
-/

namespace IntervalDump.Utf8

/-- The first mistake in a byte text. `index` is the length of the valid text before it. -/
structure Fault where
  index : Nat
  /-- How many bytes from there are certainly wrong; `none` if the text ends inside a character
  that could still have become a valid one. -/
  length : Option Nat
  deriving DecidableEq, Repr

def Fault.message (f : Fault) : String :=
  match f.length with
  | some n => s!"invalid utf-8 sequence of {n} bytes from index {f.index}"
  | none => s!"incomplete utf-8 byte sequence from index {f.index}"

/-- The ranges in which the bytes after the first byte `b` of a character must lie; `none` if no
character begins with `b`. The second byte's range excludes overlong forms, surrogates and code
points past the last plane. -/
def followers (b : UInt8) : Option (List (UInt8 × UInt8)) :=
  if b < 0x80 then some []
  else if b < 0xC2 then none
  else if b < 0xE0 then some [(0x80, 0xBF)]
  else if b = 0xE0 then some [(0xA0, 0xBF), (0x80, 0xBF)]
  else if b = 0xED then some [(0x80, 0x9F), (0x80, 0xBF)]
  else if b < 0xF0 then some [(0x80, 0xBF), (0x80, 0xBF)]
  else if b = 0xF0 then some [(0x90, 0xBF), (0x80, 0xBF), (0x80, 0xBF)]
  else if b < 0xF4 then some [(0x80, 0xBF), (0x80, 0xBF), (0x80, 0xBF)]
  else if b = 0xF4 then some [(0x80, 0x8F), (0x80, 0xBF), (0x80, 0xBF)]
  else none

/-- Walks over a character that began at `start`, of which `good` bytes were read and whose
remaining bytes must lie in the ranges `expected`; then over the characters behind it. -/
def faultFrom (start good : Nat) (expected : List (UInt8 × UInt8)) : List UInt8 → Fault
  | [] => ⟨start, none⟩
  | b :: bytes =>
    match expected with
    | [] =>
      match followers b with
      | none => ⟨start, some 1⟩
      | some [] => faultFrom (start + 1) 0 [] bytes
      | some more => faultFrom start 1 more bytes
    | (low, high) :: more =>
      if low ≤ b ∧ b ≤ high then
        if more.isEmpty then faultFrom (start + good + 1) 0 [] bytes
        else faultFrom start (good + 1) more bytes
      else ⟨start, some good⟩

/-- The first fault of a byte text that is not valid. -/
def fault (bytes : List UInt8) : Fault :=
  faultFrom 0 0 [] bytes

/-- The text that the bytes spell. -/
def decode (bytes : List UInt8) : Except Fault String :=
  match String.fromUTF8? bytes.toByteArray with
  | some text => .ok text
  | none => .error (fault bytes)

/-- The bytes of a text. -/
def encode (text : String) : List UInt8 :=
  text.toUTF8.data.toList

/-- Texts are encoded one character after the other. -/
theorem encode_append (first second : String) :
    encode (first ++ second) = encode first ++ encode second := by
  simp [encode]

/-- Decoding is exact: the bytes of the text that is given are the bytes that were read. -/
theorem encode_of_decode {bytes : List UInt8} {text : String} (h : decode bytes = .ok text) :
    encode text = bytes := by
  unfold decode at h
  split at h
  · next t ht =>
    obtain rfl : t = text := by simpa using h
    unfold String.fromUTF8? at ht
    split at ht
    · next hv =>
      obtain rfl := Option.some.inj ht
      simp [encode, String.toUTF8_eq_toByteArray, String.fromUTF8]
    · contradiction
  · contradiction

/-- What was encoded is decoded to the same text. -/
theorem decode_encode (text : String) : decode (encode text) = .ok text := by
  have hb : (encode text).toByteArray = text.toUTF8 := by
    apply ByteArray.ext
    simp [encode]
  unfold decode
  rw [hb, String.toUTF8_eq_toByteArray]
  unfold String.fromUTF8?
  rw [dif_pos text.isValidUTF8]
  rfl

end IntervalDump.Utf8
