import IntervalDump.Text.Utf8
/-!
# Bytes of markup

Markup is recognized byte by byte; only ASCII bytes have a meaning in it.
-/

namespace IntervalDump.Markup

/-- The bytes of an ASCII text. -/
def ascii (text : List Char) : List UInt8 :=
  text.map Char.toUInt8

/-- A blank of markup: space, tab, carriage return or line feed. -/
def isBlank (b : UInt8) : Bool :=
  b == 0x20 || b == 0x09 || b == 0x0D || b == 0x0A

def isQuote (b : UInt8) : Bool :=
  b == '\''.toUInt8 || b == '"'.toUInt8

/-- An ASCII letter in upper case; every other byte as it is. -/
def upper (b : UInt8) : UInt8 :=
  if 'a'.toUInt8 ≤ b && b ≤ 'z'.toUInt8 then b - 0x20 else b

/-- The name at the head of the content of a tag: all bytes before the first blank. -/
def nameOf (content : List UInt8) : List UInt8 :=
  content.takeWhile fun b => !isBlank b

/-- What follows the name in the content of a tag. -/
def behindName (content : List UInt8) : List UInt8 :=
  content.dropWhile fun b => !isBlank b

/-- How a raw name is shown in a message; one that is not UTF-8 is not shown. -/
def shown (name : List UInt8) : String :=
  match Utf8.decode name with
  | .ok text => text
  | .error _ => ""

end IntervalDump.Markup
