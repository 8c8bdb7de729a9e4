import Calculator.Elementary.Fixed
/-!
Trigonometric functions and their inverses. Arguments are reduced with as many places of pi as their
size needs; infinite arguments and those outside the domain give nan.
-/
namespace Calculator.Elementary

open Double (nan infinity isNaN isInfinite isFinite isNegative rank)

/-- An angle as a number of right angles modulo 4 and a rest of less than one right angle. -/
structure Reduced where
  quadrant : Nat
  rest : Nat

def reduceAngle (p : Nat) (x : Float) : Reduced :=
  let right := fixPi p / 2
  let angle := toFixed p x
  ⟨angle / right % 4, angle % right⟩

/-- The precision: 400 places behind the first one of a small angle, and behind the last one of a
large angle. -/
def anglePrecision (x : Float) : Nat := 400 + (log2Of x).natAbs

def fixSinCos (p : Nat) (angle : Reduced) : Int × Int :=
  let s : Int := fixSin p angle.rest
  let c : Int := fixCos p angle.rest
  match angle.quadrant with
  | 0 => (s, c)
  | 1 => (c, -s)
  | 2 => (-s, -c)
  | _ => (-c, s)

def sin (x : Float) : Float :=
  if !isFinite x then nan
  else if rank x = 0 then x
  else
    let p := anglePrecision x
    let s := (fixSinCos p (reduceAngle p x)).1
    ofFixed p (if isNegative x then -s else s)

def cos (x : Float) : Float :=
  if !isFinite x then nan
  else if rank x = 0 then 1.0
  else
    let p := anglePrecision x
    ofFixed p (fixSinCos p (reduceAngle p x)).2

def tan (x : Float) : Float :=
  if !isFinite x then nan
  else if rank x = 0 then x
  else
    let p := anglePrecision x
    let (s, c) := fixSinCos p (reduceAngle p x)
    let negative := (s < 0 : Bool) != ((c < 0 : Bool) != isNegative x)
    ofApprox negative (fixDiv p s.natAbs c.natAbs) (-p)

def arcPrecision (num den : Nat) : Nat := 400 + (-Double.ratioLog2 num den).toNat

def atan (x : Float) : Float :=
  if isNaN x || rank x = 0 then x
  else if isInfinite x then Double.withSignOf (ofFixed 400 (fixPi 400 / 2 : Nat)) x
  else
    let num := Double.numerator x
    let den := Double.denominator x
    let p := arcPrecision num den
    ofApprox (isNegative x) (fixAtanRatio p num den) (-p)

/-- The opposite and the adjacent side of the triangle whose sine is `x`, as integers. -/
def sides (x : Float) : Nat × Nat :=
  let num := Double.numerator x
  let den := Double.denominator x
  (num <<< 400, intSqrt ((den * den - num * num) <<< 800))

def asin (x : Float) : Float :=
  if isNaN x || 1.0 < Double.magnitude x then nan
  else if rank x = 0 then x
  else
    let (opposite, adjacent) := sides x
    let p := 400 + (adjacent.log2 - opposite.log2)
    ofApprox (isNegative x) (fixAtanRatio p opposite adjacent) (-p)

def acos (x : Float) : Float :=
  if isNaN x || 1.0 < Double.magnitude x then nan
  else
    let (adjacent, opposite) := sides x
    let p := 400
    let arc := fixAtanRatio p opposite adjacent
    ofFixed p (if isNegative x then fixPi p - arc else arc : Nat)

def quarterTurns (n : Nat) : Float := ofFixed 400 (n * fixPi 400 / 4 : Nat)

def atan2 (y x : Float) : Float :=
  if isNaN x || isNaN y then nan
  else if isInfinite y then
    Double.withSignOf
      (quarterTurns (if isInfinite x then (if isNegative x then 3 else 1) else 2)) y
  else if isInfinite x || rank y = 0 then
    Double.withSignOf (if isNegative x then quarterTurns 4 else 0.0) y
  else if rank x = 0 then Double.withSignOf (quarterTurns 2) y
  else
    let num := Double.numerator y * Double.denominator x
    let den := Double.numerator x * Double.denominator y
    let p := arcPrecision num den
    let arc := fixAtanRatio p num den
    ofApprox (isNegative y) (if isNegative x then fixPi p - arc else arc) (-p)

end Calculator.Elementary
