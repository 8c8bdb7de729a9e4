import Calculator.Context
import Calculator.Elementary.Root
import Calculator.Elementary.Trigonometric
/-!
The standard context: the usual functions of doubles, and the constants e, pi and tau.
-/
namespace Calculator.Standard

def unary (f : Float → Float) : Function
  | _, [x] => .ok (f x)
  | _, _ => .error ⟨"one argument expected"⟩

def binary (f : Float → Float → Float) : Function
  | _, [x, y] => .ok (f x y)
  | _, _ => .error ⟨"two arguments expected"⟩

def ternary (f : Float → Float → Float → Float) : Function
  | _, [x, y, z] => .ok (f x y z)
  | _, _ => .error ⟨"three arguments expected"⟩

/-- The sign as 1 or -1; zeros and nan stay. -/
def signum (x : Float) : Float :=
  if Double.rank x = 0 || Double.isNaN x then x else Double.withSignOf 1.0 x

/-- The greater argument, the first one if neither is. -/
def maximum (x y : Float) : Float :=
  if Double.isNaN x || Double.isNaN y then Double.nan else if x < y then y else x

/-- The smaller argument, the first one if neither is. -/
def minimum (x y : Float) : Float :=
  if Double.isNaN x || Double.isNaN y then Double.nan else if y < x then y else x

def pi : Float := 3.141592653589793

def toDegrees (x : Float) : Float := x * (180.0 / pi)

def toRadians (x : Float) : Float := x * (pi / 180.0)

def unaryFunctions : List (String × (Float → Float)) := [
  ("acos", Elementary.acos), ("asin", Elementary.asin), ("atan", Elementary.atan),
  ("cos", Elementary.cos), ("sin", Elementary.sin), ("tan", Elementary.tan),
  ("cosh", Elementary.cosh), ("tanh", Elementary.tanh), ("sinh", Elementary.sinh),
  ("exp", Elementary.exp), ("expm1", Elementary.expm1), ("sqrt", Elementary.sqrt),
  ("cbrt", Elementary.cbrt), ("log", Elementary.log), ("log10", Elementary.log10),
  ("log1p", Elementary.log1p), ("toDegrees", toDegrees), ("toRadians", toRadians),
  ("ulp", Double.ulp), ("abs", Double.magnitude), ("ceil", Double.ceil),
  ("floor", Double.floor), ("rint", Double.roundEven), ("signum", signum),
  ("nextUp", fun x => Double.nextAfter x Double.infinity),
  ("nextDown", fun x => Double.nextAfter x (-Double.infinity))]

def binaryFunctions : List (String × (Float → Float → Float)) := [
  ("atan2", Elementary.atan2), ("hypot", Elementary.hypot), ("pow", Elementary.pow),
  ("max", maximum), ("min", minimum), ("copySign", Double.withSignOf),
  ("nextAfter", Double.nextAfter), ("IEEEremainder", Double.remainder)]

/-- The table of functions; `random` returns the random number that it is given. -/
def functions : FunctionTable := ⟨
  unaryFunctions.map (fun (name, f) => ((name, 1), unary f)) ++
    binaryFunctions.map (fun (name, f) => ((name, 2), binary f)) ++
    [(("fma", 3), ternary fun x y z => x * y + z), (("random", 0), fun draw _ => .ok draw)]⟩

def constants : ConstantTable :=
  ⟨[("e", 2.718281828459045), ("pi", pi), ("tau", 6.283185307179586)]⟩

def context : Context := ⟨"Default", functions, constants⟩

end Calculator.Standard
