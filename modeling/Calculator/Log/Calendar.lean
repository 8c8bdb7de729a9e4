import Calculator.Double
/-!
The date and time of day of a moment that is given in seconds since the beginning of 1970.
-/
namespace Calculator.Log

inductive MomentFault where
  | notANumber
  | secondsOutOfRange
  | yearOutOfRange
  | yearTooLarge

def MomentFault.message : MomentFault → String
  | .notANumber => "Invalid value NaN (not a number)"
  | .secondsOutOfRange => "timestamp out of range for platform time_t"
  | .yearOutOfRange => "[Errno 75] Value too large for defined data type"
  | .yearTooLarge => "signed integer is greater than maximum"

structure Date where
  year : Int
  month : Nat
  day : Nat
  deriving DecidableEq, Repr

/-- The date that many days after the first day of 1970. Years are counted from March within eras of
400 years, which all have 146097 days. -/
def Date.ofDays (days : Int) : Date :=
  let shifted := days + 719468
  let era := Int.fdiv shifted 146097
  let dayOfEra := (Int.fmod shifted 146097).toNat
  let yearOfEra := (dayOfEra - dayOfEra / 1460 + dayOfEra / 36524 - dayOfEra / 146096) / 365
  let dayOfYear := dayOfEra - (365 * yearOfEra + yearOfEra / 4 - yearOfEra / 100)
  let monthFromMarch := (5 * dayOfYear + 2) / 153
  let month := if monthFromMarch < 10 then monthFromMarch + 3 else monthFromMarch - 9
  { year := yearOfEra + era * 400 + if month ≤ 2 then 1 else 0
    month := month
    day := dayOfYear - (153 * monthFromMarch + 2) / 5 + 1 }

def twoDigits (n : Nat) : String := if n < 10 then "0" ++ toString n else toString n

def dateText (seconds : Int) : String :=
  let date := Date.ofDays (Int.fdiv seconds 86400)
  String.intercalate "-" [toString date.year, twoDigits date.month, twoDigits date.day]

def timeText (seconds : Int) : String :=
  let second := (Int.fmod seconds 86400).toNat
  String.intercalate ":" ([second / 3600, second / 60 % 60, second % 60].map twoDigits)

def momentText (seconds : Int) : String := dateText seconds ++ " " ++ timeText seconds

/-- Seconds have 64 bits, and years 32 bits, also when they are counted from 1900. -/
def checkSeconds (seconds : Int) : Except MomentFault Unit :=
  let year := (Date.ofDays (Int.fdiv seconds 86400)).year
  if seconds < -0x8000000000000000 || 0x7FFFFFFFFFFFFFFF < seconds then .error .secondsOutOfRange
  else if year - 1900 < -0x80000000 || 0x7FFFFFFF < year - 1900 then .error .yearOutOfRange
  else if 0x7FFFFFFF < year then .error .yearTooLarge
  else .ok ()

def wholeSeconds (x : Float) : Except MomentFault Int :=
  if Double.isNaN x then .error .notANumber
  else if Double.isInfinite x then .error .secondsOutOfRange
  else .ok (Int.fdiv (Double.signedNumerator x) (Double.denominator x))

/-- A moment of universal time with its microseconds, unless there are none. -/
def timestampText (seconds : Int) (microseconds : Nat) : String :=
  let fraction := String.ofList (Nat.toDigits 10 (1000000 + microseconds % 1000000))
  dateText seconds ++ "T" ++ timeText seconds ++
    (if microseconds = 0 then "" else "." ++ (fraction.drop 1).toString) ++ "+00:00"

end Calculator.Log
