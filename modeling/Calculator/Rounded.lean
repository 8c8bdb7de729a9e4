import Calculator.Decimal
/-!
Doubles in decimal with a given number of digits, rounded to the nearest decimal and a tie to the
even one. The texts are those of magnitudes; a point is written even without digits behind it if
`point` holds.
-/
namespace Calculator.Rounded

def withFraction (point : Bool) (whole fraction : List Char) : List Char :=
  whole ++ if fraction.isEmpty && !point then [] else '.' :: fraction

def fixed (point : Bool) (places : Nat) (x : Float) : List Char :=
  let scaled := Double.nearestNat (Double.numerator x * Decimal.tenTo places) (Double.denominator x)
  let digits := Decimal.padded (places + 1) (Nat.toDigits 10 scaled)
  withFraction point (digits.take (digits.length - places)) (digits.drop (digits.length - places))

/-- The first `count` digits of a magnitude and the exponent of the first one. -/
def leading (count : Nat) (x : Float) : List Char × Int :=
  if Double.rank x = 0 then (List.replicate count '0', 0)
  else
    let exponent := Decimal.pointPlace (Double.numerator x) (Double.denominator x) - 1
    let shift := (count : Int) - 1 - exponent
    let num := Double.numerator x * Decimal.tenTo shift.toNat
    let den := Double.denominator x * Decimal.tenTo (-shift).toNat
    let digits := Nat.toDigits 10 (Double.nearestNat num den)
    if digits.length = count then (digits, exponent) else (digits.take count, exponent + 1)

def withExponent (mantissa : List Char) (exponent : Int) : List Char :=
  mantissa ++ 'e' :: (if exponent < 0 then '-' else '+') ::
    Decimal.padded 2 (Nat.toDigits 10 exponent.natAbs)

def scientific (point : Bool) (places : Nat) (x : Float) : List Char :=
  let (digits, exponent) := leading (places + 1) x
  withExponent (withFraction point (digits.take 1) (digits.drop 1)) exponent

def dropZeros (cs : List Char) : List Char := (cs.reverse.dropWhile (· = '0')).reverse

/-- A given number of digits in all, with an exponent only where the point would stand behind them
or more than four places in front. Zeros at the end are kept together with the point. -/
def general (point : Bool) (count : Nat) (x : Float) : List Char :=
  let (digits, exponent) := leading (max count 1) x
  let kept (cs : List Char) : List Char := if point then cs else dropZeros cs
  if exponent < -4 || (max count 1 : Int) ≤ exponent then
    withExponent (withFraction point (digits.take 1) (kept (digits.drop 1))) exponent
  else if exponent < 0 then
    withFraction point ['0'] (kept (List.replicate (-exponent - 1).toNat '0' ++ digits))
  else
    let whole := (exponent + 1).toNat
    withFraction point (digits.take whole) (kept (digits.drop whole))

end Calculator.Rounded
