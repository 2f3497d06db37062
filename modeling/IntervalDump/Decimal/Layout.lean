import IntervalDump.Decimal.Shortest
/-!
# Layouts: how the digits of a number are set out

Two places print numbers, and each has a layout of its own: which exponents are written
positionally, whether a whole number keeps a `.0`, and which way ties between equally near
decimals go. `Layout.text` is the text of a finite double.
-/

namespace IntervalDump

/-- How numbers are laid out. -/
structure Layout where
  tie : Tie
  /-- Whether a number whose first digit has this exponent of ten is written without one. -/
  positional : Int → Bool
  /-- Whether a whole number written positionally ends in `.0`. -/
  pointZero : Bool

namespace Layout

/-- A number written without an exponent. -/
def positionalText (pointZero : Bool) (d : Digits) : List Char :=
  if d.exponent < 0 then
    '0' :: '.' :: (List.replicate (-d.exponent - 1).toNat '0' ++ d.digits)
  else
    let whole := d.exponent.toNat + 1
    if d.digits.length ≤ whole then
      d.digits ++ List.replicate (whole - d.digits.length) '0' ++
        (if pointZero then ['.', '0'] else [])
    else d.digits.take whole ++ '.' :: d.digits.drop whole

/-- One digit, the others after a point, and the exponent with its sign. -/
def scientificText (d : Digits) : List Char :=
  d.digits.take 1 ++ (if d.digits.length ≤ 1 then [] else '.' :: d.digits.drop 1) ++
    'e' :: (if d.exponent < 0 then '-' else '+') :: Nat.toDigits 10 d.exponent.natAbs

/-- The digits as they are laid out, with or without an exponent. -/
def digitsText (layout : Layout) (d : Digits) : List Char :=
  if layout.positional d.exponent then positionalText layout.pointZero d else scientificText d

/-- The text of the double with these bits, which must be those of a finite one. -/
def bitsText (layout : Layout) (bits : UInt64) : List Char :=
  let sign := if bits.toNat / Nat.pow 2 63 = 1 then ['-'] else []
  if bits.toNat % Nat.pow 2 63 = 0 then sign ++ '0' :: (if layout.pointZero then ['.', '0'] else [])
  else sign ++ layout.digitsText ((Dyadic.ofBits bits).shortest layout.tie)

/-- The text of a finite double. -/
def text (layout : Layout) (x : Float) : String :=
  String.ofList (layout.bitsText x.toBits)

end Layout

end IntervalDump
