import Calculator.Double
import Calculator.Text.Blank
/-!
Doubles in decimal. `shortest` finds the fewest digits that read back as the same double, of those
the nearest ones; `text` lays them out, and `read?` reads a decimal text as the nearest double.
-/
namespace Calculator.Decimal

def tenTo (n : Nat) : Nat := Nat.pow 10 n

def digitsValue (cs : List Char) : Nat :=
  cs.foldl (fun n c => 10 * n + (Text.digitValue? c).getD 0) 0

/-- The rank of the double nearest to `digits · 10 ^ exponent`. -/
def rankOfScaled (digits : Nat) (exponent : Int) : Nat :=
  Double.rankOfRatio (digits * tenTo exponent.toNat) (tenTo (-exponent).toNat)

/-- As `rankOfScaled`, without large powers for what is past the largest or the least double. -/
def rankOfDecimal (digits : Nat) (exponent : Int) : Nat :=
  if digits = 0 then 0
  else
    let length : Int := (Nat.toDigits 10 digits).length
    if 310 < length + exponent then Double.infinityRank
    else if length + exponent < -330 then 0
    else rankOfScaled digits exponent

/-- The `k` with `10 ^ (k - 1) ≤ num / den < 10 ^ k`. -/
def pointPlace (num den : Nat) : Int :=
  if den ≤ num then (Nat.toDigits 10 (num / den)).length
  else
    let zeros := (Nat.toDigits 10 (den / num)).length - 1
    if den ≤ num * tenTo zeros then 1 - (zeros : Int) else -(zeros : Int)

/-- Of the two neighbours of `num / den` on the grid of `10 ^ exponent` those that round to `rank`,
the nearer one first, and the even one first if both are as near. -/
def gridPoints (rank num den : Nat) (exponent : Int) : List Nat :=
  let scaledNum := num * tenTo (-exponent).toNat
  let scaledDen := den * tenTo exponent.toNat
  let low := scaledNum / scaledDen
  let near := Double.nearestNat scaledNum scaledDen
  [near, if near = low then low + 1 else low].filter fun n => rankOfScaled n exponent == rank

def withoutTrailingZeros : Nat → Nat × Int → Nat × Int
  | 0, d => d
  | n + 1, (digits, exponent) =>
    if digits % 10 = 0 then withoutTrailingZeros n (digits / 10, exponent + 1)
    else (digits, exponent)

/-- The first grid, from coarse to fine, that has a point which rounds to `rank`. -/
def firstGrid (rank num den : Nat) : (grids : Nat) → (exponent : Int) → Option (Nat × Int)
  | 0, _ => none
  | grids + 1, exponent =>
    match gridPoints rank num den exponent with
    | digits :: _ => some (digits, exponent)
    | [] => firstGrid rank num den grids (exponent - 1)

/-- Digits and exponent of a finite double other than zero; seventeen digits tell all doubles
apart. -/
def shortest (x : Float) : Nat × Int :=
  let num := Double.numerator x
  let den := Double.denominator x
  match firstGrid (Double.rank x) num den 17 (pointPlace num den - 1) with
  | some (digits, exponent) => withoutTrailingZeros 2 (digits, exponent)
  | none => (0, 0)

structure Layout where
  leastPlain : Int
  leastScientific : Int
  exponentDigits : Nat

/-- Numbers from 0.0001 to below 10 ^ 16 are written without an exponent. -/
def layout : Layout := ⟨-4, 16, 2⟩

def zeros (n : Int) : List Char := List.replicate n.toNat '0'

def padded (width : Nat) (cs : List Char) : List Char :=
  List.replicate (width - cs.length) '0' ++ cs

/-- Digits with the point after the first `place` of them, always with a digit on both sides. -/
def plainText (digits : List Char) (place : Int) : List Char :=
  if place ≤ 0 then ['0', '.'] ++ zeros (-place) ++ digits
  else
    let whole := digits.take place.toNat ++ zeros (place - digits.length)
    let fraction := digits.drop place.toNat
    whole ++ '.' :: if fraction.isEmpty then ['0'] else fraction

def scientificText (l : Layout) (digits : List Char) (exponent : Int) : List Char :=
  let fraction := digits.drop 1
  digits.take 1 ++ (if fraction.isEmpty then [] else '.' :: fraction) ++
    'e' :: (if exponent < 0 then '-' else '+') ::
    padded l.exponentDigits (Nat.toDigits 10 exponent.natAbs)

def magnitudeText (x : Float) : List Char :=
  if Double.isNaN x then ['n', 'a', 'n']
  else if Double.isInfinite x then ['i', 'n', 'f']
  else if Double.rank x = 0 then ['0', '.', '0']
  else
    let (digits, exponent) := shortest x
    let cs := Nat.toDigits 10 digits
    let place : Int := cs.length + exponent
    if layout.leastPlain < place && place ≤ layout.leastScientific then plainText cs place
    else scientificText layout cs (place - 1)

def textChars (x : Float) : List Char :=
  (if Double.isNegative x && !Double.isNaN x then ['-'] else []) ++ magnitudeText x

/-- The shortest text that reads back as the double, with a point or an exponent. -/
def text (x : Float) : String := String.ofList (textChars x)

/-- Digits in which single underscores may stand between two digits, and what follows them. -/
def spanDigits : List Char → List Char × List Char
  | [] => ([], [])
  | [c] => if Text.isDigit c then ([c], []) else ([], [c])
  | c :: '_' :: d :: rest =>
    if Text.isDigit c then
      if Text.isDigit d then
        let (digits, rest) := spanDigits (d :: rest)
        (c :: digits, rest)
      else ([c], '_' :: d :: rest)
    else ([], c :: '_' :: d :: rest)
  | c :: rest =>
    if Text.isDigit c then
      let (digits, rest) := spanDigits rest
      (c :: digits, rest)
    else ([], c :: rest)

def spanFraction : List Char → List Char × List Char
  | '.' :: rest => spanDigits rest
  | rest => ([], rest)

/-- Splits off a sign; true stands for minus. -/
def splitSign : List Char → Bool × List Char
  | '-' :: rest => (true, rest)
  | '+' :: rest => (false, rest)
  | rest => (false, rest)

/-- The exponent that a whole text is, if it is one; no text stands for no exponent. -/
def exponent? : List Char → Option Int
  | [] => some 0
  | c :: rest =>
    if c = 'e' || c = 'E' then
      let (negative, rest) := splitSign rest
      match spanDigits rest with
      | ([], _) => none
      | (digits, []) => some (if negative then -(digitsValue digits : Int) else digitsValue digits)
      | _ => none
    else none

def unsigned? (cs : List Char) : Option (Nat × Int) :=
  let (whole, rest) := spanDigits cs
  let (fraction, rest) := spanFraction rest
  if whole.isEmpty && fraction.isEmpty then none
  else (exponent? rest).map fun e => (digitsValue (whole ++ fraction), e - fraction.length)

def magnitude? (cs : List Char) : Option Nat :=
  let word := String.ofList (cs.map Char.toLower)
  if word = "inf" || word = "infinity" then some Double.infinityRank
  else if word = "nan" then some (Double.rank Double.nan)
  else (unsigned? cs).map fun (digits, exponent) => rankOfDecimal digits exponent

/-- The blanks that may stand around a decimal, which are all but the information separators. -/
def isMargin (c : Char) : Bool := Text.isBlank c && !(0x1C ≤ c.toNat && c.toNat ≤ 0x1F)

def readChars? (cs : List Char) : Option Float :=
  let (negative, cs) := splitSign (Text.trimBy isMargin cs)
  (magnitude? cs).map (Double.ofRank negative)

def read? (s : String) : Option Float := readChars? s.toList

end Calculator.Decimal
