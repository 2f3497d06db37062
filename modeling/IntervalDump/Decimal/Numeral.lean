import IntervalDump.Decimal.Digits
/-!
# Numerals: how a number is written in a dump

A numeral is an optional sign followed by

* one of the words `inf`, `infinity` and `nan`, in any letter case, or
* decimal digits with at most one point and at least one digit, then optionally `e` or `E`, an
  optional sign and at least one digit.

Digits are ASCII digits, and there is no limit on their number. `Numeral.read?` reads exactly these
texts. `Numeral.toFloat` is the double nearest to what was read; of an exponent, only so many digits
count as it takes to reach `exponentBound`.
-/

namespace IntervalDump

open Decimal (isDigit digitValue ofDigits width takeSign)

/-- What a numeral says apart from its sign. -/
inductive Magnitude where
  /-- `digits * 10 ^ exponent`. -/
  | finite (digits : Nat) (exponent : Int)
  | infinite
  | notANumber
  deriving DecidableEq, Repr

/-- A number as it is written: its sign and its magnitude. -/
structure Numeral where
  negative : Bool
  magnitude : Magnitude
  deriving DecidableEq, Repr

namespace Numeral

/-- An exponent that has reached this bound takes no further digits. -/
def exponentBound : Nat := 65536

/-- The size of an exponent. Digits count until the bound is reached, and the others are passed
over: only a number of tens of thousands of digits can have so large an exponent and not be zero or
infinite. -/
def exponentOf (digits : List Char) : Nat :=
  digits.foldl (fun n c => if n < exponentBound then 10 * n + digitValue c else n) 0

/-- The exponent part, up to the end of the text. An absent one is zero. -/
def readExponent? : List Char → Option Int
  | [] => some 0
  | c :: rest =>
    if c = 'e' ∨ c = 'E' then
      let (negative, digits) := takeSign rest
      if digits.isEmpty ∨ !digits.all isDigit then none
      else if negative then some (-(exponentOf digits : Int))
      else some (exponentOf digits)
    else none

/-- The digits after a point, if there is one, and what follows them. -/
def takeFraction : List Char → List Char × List Char
  | '.' :: rest => (rest.takeWhile isDigit, rest.dropWhile isDigit)
  | rest => ([], rest)

/-- Digits, point and exponent. -/
def readDecimal? (text : List Char) : Option Magnitude :=
  let whole := text.takeWhile isDigit
  let (fraction, rest) := takeFraction (text.dropWhile isDigit)
  if whole.isEmpty ∧ fraction.isEmpty then none
  else
    (readExponent? rest).map fun exponent =>
      .finite (ofDigits (whole ++ fraction)) (exponent - fraction.length)

/-- A numeral without its sign. -/
def readMagnitude? (text : List Char) : Option Magnitude :=
  let word := text.map Char.toLower
  if word = ['i', 'n', 'f'] ∨ word = ['i', 'n', 'f', 'i', 'n', 'i', 't', 'y'] then some .infinite
  else if word = ['n', 'a', 'n'] then some .notANumber
  else readDecimal? text

/-- Reads a whole text as a numeral. -/
def read? (text : List Char) : Option Numeral :=
  let (negative, rest) := takeSign text
  (readMagnitude? rest).map fun magnitude => ⟨negative, magnitude⟩

/-- The double nearest to `digits * 10 ^ exponent`. A value of at least `10 ^ 310` is past every
finite double and one below `10 ^ (-330)` is past the smallest one, so that no large power of ten
is computed for these. -/
def nearest (digits : Nat) (exponent : Int) : Float :=
  let top := exponent + width digits
  if digits = 0 ∨ top < -330 then Float.ofBits 0
  else if top > 310 then Float.ofBits 0x7FF0000000000000
  else if exponent < 0 then Float.ofScientific digits true exponent.natAbs
  else Float.ofScientific digits false exponent.natAbs

/-- The float nearest to the magnitude. -/
def Magnitude.toFloat : Magnitude → Float
  | .finite digits exponent => nearest digits exponent
  | .infinite => Float.ofBits 0x7FF0000000000000
  | .notANumber => Float.ofBits 0x7FF8000000000000

/-- The double nearest to a numeral; a negative zero keeps its sign. -/
def toFloat (n : Numeral) : Float :=
  if n.negative then -(Magnitude.toFloat n.magnitude) else Magnitude.toFloat n.magnitude

end Numeral

end IntervalDump
