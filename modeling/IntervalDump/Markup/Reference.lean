import IntervalDump.Markup.Fault
import IntervalDump.Decimal.Digits
/-!
# References in values

In the value of an attribute, `&` begins a reference that the next `;` ends: the name of one of five
characters, or the number of any character, decimal or, behind `x`, hexadecimal.
`Reference.expand` puts the characters in their places; everything else in a value stays as it is,
line ends and tabs too.
-/

namespace IntervalDump.Markup.Reference

/-- The characters that have names. -/
def named? (name : List Char) : Option Char :=
  if name = ['l', 't'] then some '<'
  else if name = ['g', 't'] then some '>'
  else if name = ['a', 'm', 'p'] then some '&'
  else if name = ['a', 'p', 'o', 's'] then some '\''
  else if name = ['q', 'u', 'o', 't'] then some '"'
  else none

/-- The value of a digit below `base`, which is ten or sixteen. -/
def digit? (base : Nat) (c : Char) : Option Nat :=
  if Decimal.isDigit c then some (Decimal.digitValue c)
  else if base = 16 ∧ 'a' ≤ c ∧ c ≤ 'f' then some (c.toNat - 'a'.toNat + 10)
  else if base = 16 ∧ 'A' ≤ c ∧ c ≤ 'F' then some (c.toNat - 'A'.toNat + 10)
  else none

/-- Goes on reading a number of which `n` was read. It must stay below `2 ^ 32`. -/
def readCode (base n : Nat) : List Char → Except CodeFault Nat
  | [] => .ok n
  | c :: rest =>
    match digit? base c with
    | none => .error .notADigit
    | some d =>
      let n := n * base + d
      if Nat.pow 2 32 ≤ n then .error .tooLarge else readCode base n rest

/-- The number that a text spells, which must not be empty or begin with a sign. -/
def code (base : Nat) : List Char → Except CodeFault Nat
  | [] => .error .empty
  | c :: rest => if c = '+' ∨ c = '-' then .error .signed else readCode base 0 (c :: rest)

/-- The character that the text behind `#` stands for. -/
def numbered (text : List Char) : Except CodeFault Char := do
  let n ← match text with
    | 'x' :: digits => code 16 digits
    | digits => code 10 digits
  if n = 0 then .error .zero
  else if h : n.isValidChar then .ok (Char.ofNatAux n h)
  else .error (.notACharacter n)

/-- The length of a text in bytes. -/
def byteLength (text : List Char) : Nat :=
  text.foldr (fun c size => c.utf8Size + size) 0

/-- The character that a reference stands for; `start` is the place of its `&`. -/
def resolve (start : Nat) (name : List Char) : Except ReferenceFault Char :=
  match name with
  | '#' :: text => (numbered text).mapError .code
  | _ =>
    match named? name with
    | some c => .ok c
    | none => .error (.unknown (start + 1) (start + 1 + byteLength name) (String.ofList name))

/-- Goes on at `position`. `pending?` is the place of an `&` whose `;` is still to come, with the
characters behind it, the last first; `out` is the text so far, the last character first. -/
def expandFrom (total position : Nat) (pending? : Option (Nat × List Char)) (out : List Char) :
    List Char → Except ReferenceFault (List Char)
  | [] =>
    match pending? with
    | none => .ok out.reverse
    | some (start, _) => .error (.unterminated start total)
  | c :: rest =>
    let next := position + c.utf8Size
    match pending? with
    | none =>
      if c = '&' then expandFrom total next (some (position, [])) out rest
      else expandFrom total next none (c :: out) rest
    | some (start, name) =>
      if c = ';' then
        match resolve start name.reverse with
        | .ok r => expandFrom total next none (r :: out) rest
        | .error fault => .error fault
      else if c = '&' then .error (.unterminated start total)
      else expandFrom total next (some (start, c :: name)) out rest

/-- A value with its references replaced by the characters they stand for. -/
def expand (value : String) : Except ReferenceFault String :=
  (expandFrom value.utf8ByteSize 0 none [] value.toList).map String.ofList

end IntervalDump.Markup.Reference
