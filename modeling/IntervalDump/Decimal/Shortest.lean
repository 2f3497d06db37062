import IntervalDump.Decimal.Digits
/-!
# The shortest decimal of a double

A double stands for all the reals that round to it. Among the decimals in that interval this module
takes one with the fewest significant digits, and of these the one nearest to the double. All
arithmetic is exact and on natural numbers.

* `Dyadic.ofBits` reads the bits of a positive finite double as `significand * 2 ^ exponent`;
* `Dyadic.reads` tests whether a decimal lies in the interval of the reals that round to it;
* `Dyadic.shortest` tries one digit, two digits and so on, at most seventeen.

Which of two equally near decimals is taken is a parameter, `Tie`.
-/

namespace IntervalDump

open Decimal (width)

/-- Which of two equally near decimals is taken. -/
inductive Tie where
  /-- The one farther from zero. -/
  | away
  /-- The one whose last digit is even. -/
  | toEven
  deriving DecidableEq, Repr

/-- Decimal digits, the first one not zero, and the exponent of ten of that first digit. -/
structure Digits where
  digits : List Char
  exponent : Int
  deriving DecidableEq, Repr

/-- The positive number `significand * 2 ^ exponent`. -/
structure Dyadic where
  significand : Nat
  exponent : Int
  /-- The next smaller double is only half as far away as the next larger one. -/
  narrowBelow : Bool
  deriving DecidableEq, Repr

namespace Dyadic

/-- The number that the bits of a positive finite double stand for; the sign bit is left out. -/
def ofBits (bits : UInt64) : Dyadic :=
  let fraction : Nat := bits.toNat % Nat.pow 2 52
  let biased : Nat := bits.toNat / Nat.pow 2 52 % Nat.pow 2 11
  if biased = 0 then ⟨fraction, -1074, false⟩
  else ⟨Nat.pow 2 52 + fraction, (biased : Int) - 1075, fraction == 0 && biased != 1⟩

/-- Numerator and denominator of `2 ^ exponent / 10 ^ place / 4`: a quarter of the unit of the
significand, measured on the grid of the multiples of `10 ^ place`. -/
def quarter (d : Dyadic) (place : Int) : Nat × Nat :=
  let e := d.exponent - 2
  (Nat.pow 2 e.toNat * Nat.pow 10 (-place).toNat, Nat.pow 2 (-e).toNat * Nat.pow 10 place.toNat)

/-- Whether the decimal `c * 10 ^ place` reads back as `d`: it lies between the middles to the two
neighbours of `d`, or on one of them if the significand is even. -/
def reads (d : Dyadic) (c : Nat) (place : Int) : Bool :=
  let (num, den) := d.quarter place
  let low := (4 * d.significand - if d.narrowBelow then 1 else 2) * num
  let high := (4 * d.significand + 2) * num
  if d.significand % 2 = 0 then low ≤ c * den && c * den ≤ high
  else low < c * den && c * den < high

/-- The exponent of ten of the first digit of `d`. -/
def magnitude (d : Dyadic) : Int :=
  let num := d.significand * Nat.pow 2 d.exponent.toNat
  let den := Nat.pow 2 (-d.exponent).toNat
  let guess : Int := width num - width den
  if num * Nat.pow 10 (-guess).toNat < den * Nat.pow 10 guess.toNat then guess - 1 else guess

/-- Of the two neighbours of `d` among the multiples of `10 ^ place`, the nearer one that reads
back as `d`. -/
def nearestOn? (tie : Tie) (d : Dyadic) (place : Int) : Option Nat :=
  let (num, den) := d.quarter place
  let value := 4 * d.significand * num
  let below := value / den
  let above := below + 1
  match d.reads below place, d.reads above place with
  | false, false => none
  | true, false => some below
  | false, true => some above
  | true, true =>
    match compare (value - below * den) (above * den - value), tie with
    | .lt, _ => some below
    | .gt, _ => some above
    | .eq, .away => some above
    | .eq, .toEven => some (if below % 2 = 0 then below else above)

/-- The digits of `c * 10 ^ place`, without zeros at the end. -/
def digitsOf (c : Nat) (place : Int) : Digits :=
  let digits := Nat.toDigits 10 c
  ⟨(digits.reverse.dropWhile (· == '0')).reverse, place + digits.length - 1⟩

/-- Tries grids of one digit more each time, `fuel` of them. Seventeen digits always suffice, so
the last one is taken as it is. -/
def search (tie : Tie) (d : Dyadic) (place : Int) : (fuel : Nat) → Digits
  | 0 =>
    let (num, den) := d.quarter place
    digitsOf (4 * d.significand * num / den) place
  | fuel + 1 =>
    match nearestOn? tie d place with
    | some c => digitsOf c place
    | none => search tie d (place - 1) fuel

/-- The shortest digits that read back as `d`. -/
def shortest (tie : Tie) (d : Dyadic) : Digits :=
  search tie d d.magnitude 17

end Dyadic

end IntervalDump
