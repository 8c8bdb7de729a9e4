/-!
Doubles by their bits. A finite double is `significand · 2 ^ exponent` with a sign, its rank is its
place among the magnitudes, and `rankOfRatio` rounds a ratio of naturals to the nearest double, a
tie to the even rank and what lies past the largest double to infinity.
-/
namespace Calculator.Double

def twoTo (n : Nat) : Nat := Nat.pow 2 n

def infinityRank : Nat := 0x7FF * twoTo 52

/-- The bits without the sign; magnitudes are ordered as their ranks. -/
def rank (x : Float) : Nat := x.toBits.toNat % twoTo 63

def isNegative (x : Float) : Bool := twoTo 63 ≤ x.toBits.toNat

def isFinite (x : Float) : Bool := rank x < infinityRank

def isInfinite (x : Float) : Bool := rank x == infinityRank

def isNaN (x : Float) : Bool := infinityRank < rank x

def ofRank (negative : Bool) (r : Nat) : Float :=
  Float.ofBits (UInt64.ofNat (if negative then twoTo 63 + r else r))

def infinity : Float := ofRank false infinityRank

def nan : Float := ofRank false (infinityRank + twoTo 51)

def magnitude (x : Float) : Float := ofRank false (rank x)

def withSignOf (x y : Float) : Float := ofRank (isNegative y) (rank x)

def significandOfRank (r : Nat) : Nat := if r < twoTo 52 then r else r % twoTo 52 + twoTo 52

def exponentOfRank (r : Nat) : Int := if r < twoTo 52 then -1074 else (r / twoTo 52 : Nat) - 1075

/-- The magnitude of a finite double is `numerator / denominator`. -/
def numerator (x : Float) : Nat :=
  significandOfRank (rank x) * twoTo (exponentOfRank (rank x)).toNat

def denominator (x : Float) : Nat := twoTo (-exponentOfRank (rank x)).toNat

def signedNumerator (x : Float) : Int :=
  if isNegative x then -(numerator x : Int) else numerator x

/-- The greatest `e` with `2 ^ e ≤ num / den`. -/
def ratioLog2 (num den : Nat) : Int :=
  let e : Int := (num.log2 : Int) - den.log2
  if num * twoTo (-e).toNat < den * twoTo e.toNat then e - 1 else e

/-- The natural nearest to `num / den`, a tie to the even one. -/
def nearestNat (num den : Nat) : Nat :=
  let q := num / den
  let r := num % den
  if den < 2 * r || (2 * r == den && q % 2 == 1) then q + 1 else q

def rankOfRatio (num den : Nat) : Nat :=
  if num = 0 || den = 0 then 0
  else
    let e := max (-1074) (ratioLog2 num den - 52)
    min infinityRank
      ((e + 1074).toNat * twoTo 52 + nearestNat (num * twoTo (-e).toNat) (den * twoTo e.toNat))

def ofRatio (negative : Bool) (num den : Nat) : Float := ofRank negative (rankOfRatio num den)

def ofInt (i : Int) : Float := ofRatio (i < 0) i.natAbs 1

/-- Integers past the largest double have no double. -/
def ofInt? (i : Int) : Option Float :=
  let x := ofInt i
  if isFinite x then some x else none

/-- Applies an exact integer rounding; infinities and nan stay. -/
def throughInt (f : Int → Nat → Int) (x : Float) : Float :=
  if isFinite x then ofInt (f (signedNumerator x) (denominator x)) else x

def floor (x : Float) : Float := throughInt (fun n d => Int.fdiv n d) x

def ceil (x : Float) : Float := throughInt (fun n d => -Int.fdiv (-n) d) x

/-- The nearest integer, a half to the even one. -/
def roundEven (x : Float) : Float :=
  throughInt (fun n d => if n < 0 then -(nearestNat n.natAbs d : Int) else nearestNat n.natAbs d) x

def toInt? (x : Float) : Option Int :=
  if isFinite x && numerator x % denominator x == 0 then
    some (Int.fdiv (signedNumerator x) (denominator x))
  else none

def isOddInteger (x : Float) : Bool := (toInt? x).any fun i => i % 2 == 1

/-- Doubles in their order as integers; both zeros are 0. -/
def place (x : Float) : Int := if isNegative x then -(rank x : Int) else rank x

def ofPlace (negativeZero : Bool) (p : Int) : Float :=
  ofRank (p < 0 || (p == 0 && negativeZero)) p.natAbs

/-- The double next to `x` towards `y`; `y` itself if they are equal. -/
def nextAfter (x y : Float) : Float :=
  if isNaN x || isNaN y then nan
  else if place x = place y then y
  else if place x < place y then ofPlace (isNegative x) (place x + 1)
  else ofPlace (isNegative x) (place x - 1)

/-- The distance from the magnitude of `x` to the double above it, below it at the largest. -/
def ulp (x : Float) : Float :=
  if isFinite x then
    let r := rank x
    if r + 1 = infinityRank then
      ofRank false r - ofRank false (r - 1)
    else ofRank false (r + 1) - ofRank false r
  else magnitude x

/-- The remainder by the nearest integer multiple of `y`, a tie to the even multiple. -/
def remainder (x y : Float) : Float :=
  if isNaN x || isNaN y || isInfinite x || rank y = 0 then nan
  else if isInfinite y then x
  else
    let num := numerator x * denominator y
    let den := numerator y * denominator x
    let rest : Int := (num : Int) - (nearestNat num den * den : Nat)
    let flipped := (decide (rest < 0)) != isNegative x
    ofRatio flipped rest.natAbs (denominator x * denominator y)

end Calculator.Double
