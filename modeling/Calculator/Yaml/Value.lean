import Calculator.Datum
import Calculator.Text.LowerCase
import Calculator.Yaml.Scalar
/-!
Values of YAML nodes: what a scalar of a known meaning stands for, and mappings by their keys.
-/
namespace Calculator.Yaml

inductive Value where
  | null
  | truth (b : Bool)
  | integer (i : Int)
  | number (x : Float)
  | text (s : String)
  | bytes (bs : List UInt8)
  | moment (shown : String)
  | list (items : List Value)
  | mapping (entries : List (Value × Value))
  | set
  deriving Inhabited

abbrev Valued := Except Fault

namespace Value

/-- Bytes between quotes: the printable ASCII characters as they are, all others by their code. -/
def bytesShown (bs : List UInt8) : String :=
  let cs := bs.map fun b => Char.ofNat b.toNat
  let mark := Text.quoteMark cs
  let charShown (c : Char) : List Char :=
    if c.toNat < 0x80 then Text.quoteChar mark c else ['\\', 'x'] ++ Text.hex 2 c.toNat
  String.ofList ('b' :: mark :: cs.flatMap charShown ++ [mark])

/-- The text form of a value that may be a key; a truth value counts as a number there. -/
def shown : Value → String
  | .null => "None"
  | .truth b => if b then "1" else "0"
  | .integer i => toString i
  | .number x => Decimal.text x
  | .text s => Text.quoted s
  | .bytes bs => bytesShown bs
  | .moment s => s
  | _ => ""

def toDatumNumber? : Value → Option Datum
  | .truth b => some (.bool b)
  | .integer i => some (.int i)
  | .number x => some (.number x)
  | _ => none

/-- Equality of keys; numbers of all kinds are compared by value. -/
def sameKey : Value → Value → Bool
  | .null, .null => true
  | .text s, .text t => s == t
  | .bytes s, .bytes t => s == t
  | .moment s, .moment t => s == t
  | a, b => match toDatumNumber? a, toDatumNumber? b with
    | some x, some y => x.same y
    | _, _ => false

def isKey : Value → Bool
  | .list _ => false
  | .mapping _ => false
  | .set => false
  | _ => true

/-- Stores a value; a key that is there already keeps its place. -/
def put (entries : List (Value × Value)) (key value : Value) : List (Value × Value) :=
  match entries with
  | [] => [(key, value)]
  | (k, v) :: rest => if k.sameKey key then (k, value) :: rest else (k, v) :: put rest key value

def ofEntries (entries : List (Value × Value)) : Value :=
  .mapping (entries.foldl (fun m (key, value) => put m key value) [])

def withoutUnderscores (text : String) : List Char := text.toList.filter (· ≠ '_')

/-- A sign and what follows it; a text without characters is no number. -/
def signed? : List Char → Option (Bool × List Char)
  | [] => none
  | '-' :: rest => some (true, rest)
  | '+' :: rest => some (false, rest)
  | cs => some (false, cs)

/-- The value of a digit of any script, or of a letter from `a` to `f`. -/
def anyDigitValue? (c : Char) : Option Nat := (hexDigitValue? c).or (Text.digitValue? c)

def isDigitOf (base : Nat) (c : Char) : Bool := (anyDigitValue? c).any (· < base)

/-- Drops the mark of a base in front of its digits. -/
def dropBaseMark (base : Nat) : List Char → List Char
  | '0' :: c :: rest =>
    let letter := c.toLower
    if base = 2 && letter = 'b' || base = 8 && letter = 'o' || base = 16 && letter = 'x' then rest
    else '0' :: c :: rest
  | cs => cs

/-- An integer in a base, with blanks around it, and with a sign and a mark of the base in front of
its digits. Ten is the only base with a bound on the number of digits. -/
def integerIn (base : Nat) (cs : List Char) : Valued Int :=
  let (negative, body) := Decimal.splitSign (Text.trimBy Decimal.isMargin cs)
  let body := dropBaseMark base body
  let digits := body.takeWhile (isDigitOf base)
  if base = 10 && 4300 < digits.length then .error (.tooManyDigits digits.length)
  else if digits.isEmpty || digits.length < body.length then
    .error (.integerDigits base (String.ofList cs))
  else
    let n := digits.foldl (fun n c => base * n + (anyDigitValue? c).getD 0) 0
    .ok (if negative then -(n : Int) else n)

def splitAtColons : List Char → List (List Char)
  | [] => [[]]
  | ':' :: rest => [] :: splitAtColons rest
  | c :: rest =>
    match splitAtColons rest with
    | part :: parts => (c :: part) :: parts
    | [] => [[c]]

def sixties (parts : List Int) : Int := parts.foldl (fun n part => 60 * n + part) 0

def unsignedOf : List Char → Valued Int
  | [] => .error .emptyNumber
  | ['0'] => .ok 0
  | '0' :: 'b' :: rest => integerIn 2 rest
  | '0' :: 'x' :: rest => integerIn 16 rest
  | '0' :: rest => integerIn 8 ('0' :: rest)
  | cs =>
    if cs.contains ':' then do
      let parts ← (splitAtColons cs).mapM (integerIn 10)
      .ok (sixties parts)
    else integerIn 10 cs

def integerOf (text : String) : Valued Value :=
  match signed? (withoutUnderscores text) with
  | none => .error .emptyNumber
  | some (negative, cs) => do
    let i ← unsignedOf cs
    .ok (.integer (if negative then -i else i))

def doubleOf (cs : List Char) : Valued Float :=
  match Decimal.readChars? cs with
  | some x => .ok x
  | none => .error (.decimalDigits (String.ofList cs))

/-- The sum of parts between colons, each worth `weight` and sixty times less than the part in front
of it; the last part stands first. -/
def sixtiesFromLast (sum : Float) (weight : Nat) : List Float → Valued Float
  | [] => .ok sum
  | x :: rest =>
    match Double.ofInt? weight with
    | some w => sixtiesFromLast (sum + x * w) (60 * weight) rest
    | none => .error .integerTooLarge

def floatingOf (text : String) : Valued Value :=
  match signed? (Text.lower (String.ofList (withoutUnderscores text))).toList with
  | none => .error .emptyNumber
  | some (negative, cs) => do
    let x ←
      if cs = ".inf".toList then .ok Double.infinity
      else if cs = ".nan".toList then .ok Double.nan
      else if cs.contains ':' then do
        let parts ← (splitAtColons cs).mapM doubleOf
        sixtiesFromLast 0.0 1 parts.reverse
      else doubleOf cs
    .ok (.number (if negative then -x else x))

def truthOf (text : String) : Valued Value :=
  let word := Text.lower text
  match Entries.get? truthWords word with
  | some b => .ok (.truth b)
  | none => .error (.truthWord word)

def base64Digit? (c : Char) : Option Nat :=
  if 'A' ≤ c && c ≤ 'Z' then some (c.toNat - 65)
  else if 'a' ≤ c && c ≤ 'z' then some (c.toNat - 71)
  else if c.isDigit then some (c.toNat + 4)
  else if c = '+' then some 62
  else if c = '/' then some 63
  else none

/-- Decodes base 64, passing over foreign characters; `digits` of the current group make `bits`. -/
def decodeBase64 (digits bits pads : Nat) : List Char → Option (List UInt8)
  | [] => if digits = 0 then some [] else none
  | '=' :: rest =>
    if 2 ≤ digits && 4 ≤ digits + pads + 1 then some []
    else decodeBase64 digits bits (if 2 ≤ digits then pads + 1 else pads) rest
  | c :: rest =>
    match base64Digit? c with
    | none => decodeBase64 digits bits pads rest
    | some d =>
      match digits with
      | 0 => decodeBase64 1 d 0 rest
      | 1 => (decodeBase64 2 (d % 16) 0 rest).map (UInt8.ofNat (bits * 4 + d / 16) :: ·)
      | 2 => (decodeBase64 3 (d % 4) 0 rest).map (UInt8.ofNat (bits * 16 + d / 4) :: ·)
      | _ => (decodeBase64 0 0 0 rest).map (UInt8.ofNat (bits * 64 + d) :: ·)

def binaryOf (text : String) : Valued Value :=
  if text.toList.all fun c => c.toNat < 0x80 then
    match decodeBase64 0 0 0 text.toList with
    | some bs => .ok (.bytes bs)
    | none => malformed "binary data is not complete"
  else malformed "binary data holds a foreign character"

def momentOf (text : String) : Valued Value := do
  let shown ← momentShown text
  .ok (.moment shown)

def ofText (meaning : Meaning) (text : String) : Valued Value :=
  match meaning with
  | .null => .ok .null
  | .truth => truthOf text
  | .integer => integerOf text
  | .floating => floatingOf text
  | .binary => binaryOf text
  | .moment => momentOf text
  | .text => .ok (.text text)
  | .orderedMap | .pairs | .sequence => malformed "a sequence is expected"
  | .set | .mapping => malformed "a mapping is expected"
  | .merge | .default => malformed "a merge or a default stands outside of a mapping"

end Value

end Calculator.Yaml
