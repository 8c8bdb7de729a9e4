import Calculator.Elementary.Fixed
/-!
Square roots and lengths, correctly rounded. The root of a ratio is taken as an integer root with
more places than a double has; a last odd unit tells that the root is not exact.
-/
namespace Calculator.Elementary

/-- The double nearest to the square root of `num / den ^ 2`. -/
def rootOfRatio (num den : Nat) : Float :=
  if num = 0 then 0.0
  else
    let places := 64 + (den.log2 - num.log2 / 2)
    let scaled := num <<< (2 * places)
    let r := intSqrt scaled
    let unit := if r * r = scaled then 0 else 1
    Double.ofRatio false (2 * r + unit) (den <<< (places + 1))

def sqrt (x : Float) : Float :=
  if Double.isNaN x || Double.rank x = 0 then x
  else if Double.isNegative x then Double.nan
  else if Double.isInfinite x then x
  else rootOfRatio (Double.numerator x * Double.denominator x) (Double.denominator x)

/-- The length of the vector; an infinite side makes it infinite whatever the other side is. -/
def hypot (x y : Float) : Float :=
  if Double.isInfinite x || Double.isInfinite y then Double.infinity
  else if Double.isNaN x || Double.isNaN y then Double.nan
  else
    let a := Double.numerator x * Double.denominator y
    let b := Double.numerator y * Double.denominator x
    rootOfRatio (a * a + b * b) (Double.denominator x * Double.denominator y)

end Calculator.Elementary
