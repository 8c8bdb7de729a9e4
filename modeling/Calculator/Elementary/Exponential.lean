import Calculator.Elementary.Fixed
/-!
Exponentials, logarithms, hyperbolic functions and powers. An argument outside the domain gives nan,
a result past the largest double an infinity.
-/
namespace Calculator.Elementary

open Double (nan infinity isNaN isInfinite isFinite isNegative rank)

/-- The function `exp` is infinite above this argument, and 0 below its negative. -/
def expLimit : Float := 750.0

def exp (x : Float) : Float :=
  if isNaN x then nan
  else if expLimit < x then infinity
  else if x < -expLimit then 0.0
  else
    let (n, k) := fixExpParts 400 (signed (isNegative x) (toFixed 400 x))
    ofApprox false n (k - 400)

def fixExpOf (p : Nat) (x : Int) : Nat :=
  let (n, k) := fixExpParts p x
  shift n k

def expm1 (x : Float) : Float :=
  if isNaN x || rank x = 0 then x
  else if expLimit < x then infinity
  else if x < -100.0 then -1.0
  else
    let p := precisionFor x
    ofFixed p ((fixExpOf p (signed (isNegative x) (toFixed p x)) : Int) - (1 <<< p : Nat))

/-- The sine and the cosine, hyperbolic, of a positive fixed-point number, each doubled. -/
def fixSinhCosh (p x : Nat) : Nat × Nat :=
  let grown := fixExpOf p x
  let shrunk := fixExpOf p (-(x : Int))
  (grown - shrunk, grown + shrunk)

def sinh (x : Float) : Float :=
  if isNaN x || rank x = 0 || isInfinite x then x
  else if expLimit < x || x < -expLimit then Double.withSignOf infinity x
  else
    let p := precisionFor x
    ofApprox (isNegative x) (fixSinhCosh p (toFixed p x)).1 (-p - 1)

def cosh (x : Float) : Float :=
  if isNaN x then nan
  else if expLimit < x || x < -expLimit then infinity
  else ofApprox false (fixSinhCosh 400 (toFixed 400 x)).2 (-401)

def tanh (x : Float) : Float :=
  if isNaN x || rank x = 0 then x
  else if 50.0 < x || x < -50.0 then Double.withSignOf 1.0 x
  else
    let p := precisionFor x
    let (s, c) := fixSinhCosh p (toFixed p x)
    ofApprox (isNegative x) (fixDiv p s c) (-p)

/-- Logarithms share their behaviour at the pole, below it and at infinity. -/
def logAbove (pole : Float) (f : Float → Float) (x : Float) : Float :=
  if x == pole then -infinity
  else if x < pole || isNaN x then nan
  else if isInfinite x then infinity
  else f x

def log (x : Float) : Float :=
  logAbove 0.0 (fun x => ofFixed 400 (fixLn 400 (Double.numerator x) (Double.denominator x))) x

def log10 (x : Float) : Float :=
  logAbove 0.0 (fun x =>
    let n := fixLn 400 (Double.numerator x) (Double.denominator x)
    ofApprox (n < 0) (fixDiv 400 n.natAbs (fixLn 400 10 1).natAbs) (-400)) x

def log1p (x : Float) : Float :=
  logAbove (-1.0) (fun x =>
    if rank x = 0 then x
    else
      let p := precisionFor x
      let den := Double.denominator x
      ofFixed p (fixLn p (Double.signedNumerator x + den).toNat den)) x

def powPositive (negative : Bool) (x y : Float) : Float :=
  let p := 600
  let ln := fixLn p (Double.numerator x) (Double.denominator x)
  let shrinks := (ln < 0 : Bool) != isNegative y
  let size := (ln.natAbs.log2 : Int) - p + log2Of y
  if 11 < size then Double.ofRank negative (if shrinks then 0 else Double.infinityRank)
  else
    let r := rank y
    let product := shift (ln.natAbs * Double.significandOfRank r) (Double.exponentOfRank r)
    let (n, k) := fixExpParts p (signed shrinks product)
    ofApprox negative n (k - p)

/-- The magnitude of `x ^ y` where `x` or `y` is infinite or `x` is 0, as a rank. -/
def limitPower (grows : Bool) : Nat := if grows then Double.infinityRank else 0

def pow (x y : Float) : Float :=
  if rank y = 0 || x == 1.0 then 1.0
  else if isNaN x || isNaN y then nan
  else
    let odd := Double.isOddInteger y
    let negative := isNegative x && odd
    if isInfinite y then
      if Double.magnitude x == 1.0 then 1.0
      else Double.ofRank false (limitPower (decide (1.0 < Double.magnitude x) != isNegative y))
    else if rank x = 0 then Double.ofRank negative (limitPower (isNegative y))
    else if isInfinite x then Double.ofRank negative (limitPower (!isNegative y))
    else if isNegative x && (Double.toInt? y).isNone then nan
    else if Double.magnitude x == 1.0 then Double.withSignOf 1.0 (if negative then -1.0 else 1.0)
    else powPositive negative (Double.magnitude x) y

/-- The power with the double nearest to a third as its exponent, with the sign of `x`. -/
def cbrt (x : Float) : Float := Double.withSignOf (pow (Double.magnitude x) (1.0 / 3.0)) x

end Calculator.Elementary
