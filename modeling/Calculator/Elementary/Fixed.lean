import Calculator.Double
/-!
Fixed-point numbers: at precision `p` the integer `n` stands for `n / 2 ^ p`. The series below stop
where a term falls under the last place, so their error is a few units of that place.
-/
namespace Calculator.Elementary

def intSqrt (n : Nat) : Nat :=
  if n < 2 then n
  else
    let r := 2 * intSqrt (n / 4)
    if (r + 1) * (r + 1) ≤ n then r + 1 else r
termination_by n

def fixMul (p a b : Nat) : Nat := (a * b) >>> p

def fixDiv (p a b : Nat) : Nat := (a <<< p) / b

def fixSqrt (p a : Nat) : Nat := intSqrt (a <<< p)

def shift (n : Nat) (e : Int) : Nat := (n <<< e.toNat) >>> (-e).toNat

/-- The sum `term + term · x / (k + 1) + term · x ^ 2 / ((k + 1) (k + 2)) + …`. -/
def expTerms (p x : Nat) : (fuel k term : Nat) → Nat
  | 0, _, _ => 0
  | fuel + 1, k, term =>
    if term = 0 then 0 else term + expTerms p x fuel (k + 1) (fixMul p term x / (k + 1))

/-- The exponential of a number from 0 to below 1. -/
def fixExp (p x : Nat) : Nat := expTerms p x (p + 2) 0 (1 <<< p)

/-- The sum `power / k + power · square / (k + 2) + …`. -/
def oddTerms (p square : Nat) : (fuel k power : Nat) → Nat
  | 0, _, _ => 0
  | fuel + 1, k, power =>
    if power = 0 then 0 else power / k + oddTerms p square fuel (k + 2) (fixMul p power square)

def alternatingOddTerms (p square : Nat) : (fuel k power : Nat) → Int
  | 0, _, _ => 0
  | fuel + 1, k, power =>
    if power = 0 then 0
    else (power / k : Nat) - alternatingOddTerms p square fuel (k + 2) (fixMul p power square)

def fixAtanh (p x : Nat) : Nat := oddTerms p (fixMul p x x) (p + 2) 1 x

/-- The sum `term - term · square / ((k + 1) (k + 2)) + …`. -/
def alternatingTerms (p square : Nat) : (fuel k term : Nat) → Int
  | 0, _, _ => 0
  | fuel + 1, k, term =>
    if term = 0 then 0
    else (term : Int) -
      alternatingTerms p square fuel (k + 2) (fixMul p term square / ((k + 1) * (k + 2)))

def fixSin (p x : Nat) : Nat := (alternatingTerms p (fixMul p x x) (p + 2) 1 x).toNat

def fixCos (p x : Nat) : Nat := (alternatingTerms p (fixMul p x x) (p + 2) 0 (1 <<< p)).toNat

def halfAngle (p z : Nat) : Nat :=
  fixDiv p z (1 <<< p + fixSqrt p (1 <<< p + fixMul p z z))

/-- The arc tangent of a number up to 1; twice halving the angle speeds up the series. -/
def fixAtan (p x : Nat) : Nat :=
  let z := halfAngle p (halfAngle p x)
  4 * (alternatingOddTerms p (fixMul p z z) (p + 2) 1 z).toNat

def fixLn2 (p : Nat) : Nat := 2 * fixAtanh p ((1 <<< p) / 3)

def fixPi (p : Nat) : Nat :=
  let arc (d : Nat) : Int :=
    alternatingOddTerms p ((1 <<< p) / (d * d)) (p + 2) 1 ((1 <<< p) / d)
  (16 * arc 5 - 4 * arc 239).toNat

def fixLn (p num den : Nat) : Int :=
  let k := Double.ratioLog2 num den
  let n := num <<< (-k).toNat
  let d := den <<< k.toNat
  2 * (fixAtanh p (fixDiv p (n - d) (n + d)) : Int) + k * fixLn2 p

/-- The arc tangent of `num / den`; a denominator of zero stands for a right angle. -/
def fixAtanRatio (p num den : Nat) : Nat :=
  if num ≤ den then (if den = 0 then 0 else fixAtan p (fixDiv p num den))
  else fixPi p / 2 - fixAtan p (fixDiv p den num)

/-- A natural `n` and an exponent `k` with `exp x = n / 2 ^ p · 2 ^ k`. -/
def fixExpParts (p : Nat) (x : Int) : Nat × Int :=
  let ln2 : Int := fixLn2 p
  let k := Int.fdiv x ln2
  (fixExp p (x - k * ln2).toNat, k)

def toFixed (p : Nat) (x : Float) : Nat :=
  let r := Double.rank x
  shift (Double.significandOfRank r) (Double.exponentOfRank r + p)

def signed (negative : Bool) (n : Nat) : Int := if negative then -(n : Int) else n

/-- The binary places that a result is cut to before it becomes a double. They are far fewer than
the exact places of an approximation, so exact results and ties come out exact. -/
def keptPlaces : Nat := 192

def ofApprox (negative : Bool) (n : Nat) (e : Int) : Float :=
  let excess := n.log2 - keptPlaces
  let kept := Double.nearestNat n (Double.twoTo excess)
  let e := e + excess
  if 1100 < (kept.log2 : Int) + e then Double.ofRank negative Double.infinityRank
  else Double.ofRatio negative (kept * Double.twoTo e.toNat) (Double.twoTo (-e).toNat)

def ofFixed (p : Nat) (n : Int) : Float := ofApprox (n < 0) n.natAbs (-p)

/-- The greatest `e` with `2 ^ e ≤ x`, for a finite magnitude other than zero. -/
def log2Of (x : Float) : Int :=
  Double.ratioLog2 (Double.numerator x) (Double.denominator x)

def precisionFor (x : Float) : Nat := 400 + (-log2Of x).toNat

end Calculator.Elementary
