import Calculator.Decimal
import Calculator.Entries
import Calculator.Text.Quoted
/-!
Values from outside: what a variable mapping, the fields of a log record or the details of an error
may hold. `toDouble` takes one as a number, `shown` and `json` write it.
-/
namespace Calculator

inductive Datum where
  | null
  | bool (b : Bool)
  | int (i : Int)
  | number (x : Float)
  | text (s : String)
  | list (items : List Datum)
  | record (fields : List (String × Datum))
  deriving Inhabited

inductive ConversionError where
  | notDecimal (s : String)
  | integerTooLarge
  | notNumeric (kind : String)

def ConversionError.message : ConversionError → String
  | .notDecimal s => "could not convert string to float: " ++ Text.quoted s
  | .integerTooLarge => "int too large to convert to float"
  | .notNumeric kind =>
    "float() argument must be a string or a real number, not " ++ Text.quoted kind

namespace Datum

def kindName : Datum → String
  | .null => "NoneType"
  | .bool _ => "bool"
  | .int _ => "int"
  | .number _ => "float"
  | .text _ => "str"
  | .list _ => "list"
  | .record _ => "dict"

/-- Numbers are taken as they are, truth values as 1 and 0, and texts as decimals. -/
def toDouble : Datum → Except ConversionError Float
  | .bool b => .ok (if b then 1.0 else 0.0)
  | .int i => match Double.ofInt? i with
    | some x => .ok x
    | none => .error .integerTooLarge
  | .number x => .ok x
  | .text s => match Decimal.read? s with
    | some x => .ok x
    | none => .error (.notDecimal s)
  | other => .error (.notNumeric other.kindName)

mutual
def shown : Datum → String
  | .null => "None"
  | .bool b => if b then "True" else "False"
  | .int i => toString i
  | .number x => Decimal.text x
  | .text s => Text.quoted s
  | .list items => Text.bracketed (shownItems items)
  | .record fields => "\x7b" ++ String.intercalate ", " (shownFields fields) ++ "\x7d"

def shownItems : List Datum → List String
  | [] => []
  | item :: rest => shown item :: shownItems rest

def shownFields : List (String × Datum) → List String
  | [] => []
  | (key, value) :: rest => (Text.quoted key ++ ": " ++ shown value) :: shownFields rest
end

def unitEscape (n : Nat) : List Char := ['\\', 'u'] ++ Text.hex 4 n

/-- Characters above ASCII are escaped, those past 0xFFFF as a pair of surrogates. -/
def jsonChar (c : Char) : List Char :=
  if c = '"' || c = '\\' then ['\\', c]
  else if c = '\n' then ['\\', 'n']
  else if c = '\r' then ['\\', 'r']
  else if c = '\t' then ['\\', 't']
  else if c = '\x08' then ['\\', 'b']
  else if c = '\x0c' then ['\\', 'f']
  else if 0x20 ≤ c.toNat && c.toNat < 0x7F then [c]
  else if c.toNat < 0x10000 then unitEscape c.toNat
  else
    let n := c.toNat - 0x10000
    unitEscape (0xD800 + n / 0x400) ++ unitEscape (0xDC00 + n % 0x400)

def jsonString (s : String) : String :=
  String.ofList ('"' :: s.toList.flatMap jsonChar ++ ['"'])

def jsonNumber (x : Float) : String :=
  if Double.isNaN x then "NaN"
  else if Double.isInfinite x then (if Double.isNegative x then "-Infinity" else "Infinity")
  else Decimal.text x

mutual
/-- JSON in one line of ASCII, with the fields in their order. -/
def json : Datum → String
  | .null => "null"
  | .bool b => if b then "true" else "false"
  | .int i => toString i
  | .number x => jsonNumber x
  | .text s => jsonString s
  | .list items => Text.bracketed (jsonItems items)
  | .record fields => "\x7b" ++ String.intercalate ", " (jsonFields fields) ++ "\x7d"

def jsonItems : List Datum → List String
  | [] => []
  | item :: rest => json item :: jsonItems rest

def jsonFields : List (String × Datum) → List String
  | [] => []
  | (key, value) :: rest => (jsonString key ++ ": " ++ json value) :: jsonFields rest
end

def asNumber? : Datum → Option (Int ⊕ Float)
  | .bool b => some (.inl (if b then 1 else 0))
  | .int i => some (.inl i)
  | .number x => some (match Double.toInt? x with
    | some i => .inl i
    | none => .inr x)
  | _ => none

def sameNumber : Int ⊕ Float → Int ⊕ Float → Bool
  | .inl i, .inl j => i == j
  | .inr x, .inr y => x == y
  | _, _ => false

mutual
/-- Equality of values; numbers of all kinds are compared by value, fields in any order. -/
def same : Datum → Datum → Bool
  | .null, .null => true
  | .text s, .text t => s == t
  | .list xs, .list ys => sameItems xs ys
  | .record xs, .record ys => xs.length == ys.length && sameFields xs ys
  | x, y => match asNumber? x, asNumber? y with
    | some a, some b => sameNumber a b
    | _, _ => false

def sameItems : List Datum → List Datum → Bool
  | [], [] => true
  | x :: xs, y :: ys => same x y && sameItems xs ys
  | _, _ => false

def sameFields : List (String × Datum) → List (String × Datum) → Bool
  | [], _ => true
  | (key, x) :: xs, ys => (match Entries.get? ys key with
    | some y => same x y
    | none => false) && sameFields xs ys
end

/-- The field of a record, null if it is absent or the value is no record. -/
def field (key : String) : Datum → Datum
  | .record fields => (Entries.get? fields key).getD .null
  | _ => .null

end Datum

end Calculator
