/-!
# Quoted text

How a text is written in JSON: between quotation marks, with a backslash before a quotation mark or
a backslash, and the control characters below U+0020 as escapes. Every other character, the rest of
Unicode included, stands for itself.
-/

namespace IntervalDump.Json.Quoted

/-- The digit of `n % 16`, in lower case. -/
def hexDigit (n : Nat) : Char :=
  Nat.digitChar (n % 16)

/-- One character as it is written between quotation marks. -/
def encodeChar (c : Char) : List Char :=
  if c = '"' then ['\\', '"']
  else if c = '\\' then ['\\', '\\']
  else if c = '\x08' then ['\\', 'b']
  else if c = '\t' then ['\\', 't']
  else if c = '\n' then ['\\', 'n']
  else if c = '\x0c' then ['\\', 'f']
  else if c = '\r' then ['\\', 'r']
  else if c.toNat < 0x20 then ['\\', 'u', '0', '0', hexDigit (c.toNat / 16), hexDigit c.toNat]
  else [c]

/-- Adds a quoted text to `out`. -/
def write (text : String) (out : String) : String :=
  (text.toList.foldl (fun out c => (encodeChar c).foldl String.push out) (out.push '"')).push '"'

/-- A text with its quotation marks. -/
def encode (text : String) : String :=
  write text ""

end IntervalDump.Json.Quoted
