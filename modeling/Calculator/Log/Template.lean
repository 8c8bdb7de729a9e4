import Calculator.Datum
import Calculator.Rounded
/-!
Message templates. A percent sign begins a place for a value: a key in parentheses, flags, the least
width, the precision and the letter of a conversion, of which only the letter must stand. Two
percent signs stand for one.
-/
namespace Calculator.Log.Template

inductive Fault where
  | tooFewValues
  | tooManyValues
  | incomplete
  | incompleteKey
  | noMapping
  | missingKey (key : String)
  | sizeNotInteger
  | sizeTooLarge (what : String)
  | unsupported (letter : Char) (index : Nat)
  | noInteger (letter : Char) (kind : String)
  | noNumber (letter : Char) (kind : String)
  | noDouble (kind : String)
  | noCharacter
  | outsideUnicode
  | integerTooLarge
  | infinite
  | notANumber

def Fault.message : Fault → String
  | .tooFewValues => "not enough arguments for format string"
  | .tooManyValues => "not all arguments converted during string formatting"
  | .incomplete => "incomplete format"
  | .incompleteKey => "incomplete format key"
  | .noMapping => "format requires a mapping"
  | .missingKey key => Text.quoted key
  | .sizeNotInteger => "* wants int"
  | .sizeTooLarge what => what ++ " too big"
  | .unsupported letter index =>
    let shown := if ' ' ≤ letter && letter < '\x7f' then letter else '?'
    let code := String.ofList (Nat.toDigits 16 letter.toNat)
    "unsupported format character '" ++ shown.toString ++ "' (0x" ++ code ++ ") at index " ++
      toString index
  | .noInteger letter kind =>
    "%" ++ letter.toString ++ " format: an integer is required, not " ++ kind
  | .noNumber letter kind =>
    "%" ++ letter.toString ++ " format: a real number is required, not " ++ kind
  | .noDouble kind => "must be real number, not " ++ kind
  | .noCharacter => "%c requires int or char"
  | .outsideUnicode => "%c arg not in range(0x110000)"
  | .integerTooLarge => "int too large to convert to float"
  | .infinite => "cannot convert float infinity to integer"
  | .notANumber => "cannot convert float NaN to integer"

/-- The values still to be written, and the mapping that keys refer to, if there is one. -/
structure Supply where
  values : List Datum
  mapping : Option (Entries String Datum) := none

/-- A single value that is a mapping with entries serves for all keys. -/
def Supply.ofValues : List Datum → Supply
  | [.record (field :: fields)] => ⟨[.record (field :: fields)], some (field :: fields)⟩
  | values => ⟨values, none⟩

structure Place where
  flags : List Char := []
  width : Nat := 0
  precision : Option Nat := none

namespace Place

def has (p : Place) (flag : Char) : Bool := p.flags.contains flag

/-- Fills up to the width: behind the text, between sign and digits, or in front. The sign stands
apart from the body, and zeros fill only numbers. -/
def fill (p : Place) (zeros : Bool) (sign body : List Char) : List Char :=
  let missing := p.width - (sign.length + body.length)
  if p.has '-' then
    sign ++ body ++ List.replicate missing ' '
  else if zeros then sign ++ List.replicate missing '0' ++ body
  else List.replicate missing ' ' ++ sign ++ body

/-- The sign of a number; flags ask for one in front of numbers that are not negative. -/
def sign (p : Place) (negative : Bool) : List Char :=
  if negative then ['-'] else if p.has '+' then ['+'] else if p.has ' ' then [' '] else []

def text (p : Place) (cs : List Char) : List Char :=
  p.fill false [] ((p.precision.map fun n => cs.take n).getD cs)

/-- An integer in a base, with at least as many digits as the precision, and behind a mark of its
base if a flag asks for it. -/
def integer (p : Place) (base : Nat) (mark : List Char) (i : Int) : List Char :=
  let digits := Decimal.padded (p.precision.getD 0) (Nat.toDigits base i.natAbs)
  let mark := if p.has '#' then mark else []
  p.fill (p.has '0') (p.sign (i < 0) ++ mark) digits

def double (p : Place) (write : Bool → Nat → Float → List Char) (x : Float) : List Char :=
  let body :=
    if Double.isNaN x then ['n', 'a', 'n']
    else if Double.isInfinite x then ['i', 'n', 'f']
    else write (p.has '#') (p.precision.getD 6) (Double.magnitude x)
  p.fill (p.has '0') (p.sign (Double.isNegative x && !Double.isNaN x)) body

end Place

/-- A text as it is, all other values as they are shown. -/
def display : Datum → List Char
  | .text s => s.toList
  | d => d.shown.toList

def asciiChar (c : Char) : List Char :=
  if c.toNat < 0x80 then [c]
  else if c.toNat < 0x100 then ['\\', 'x'] ++ Text.hex 2 c.toNat
  else if c.toNat < 0x10000 then ['\\', 'u'] ++ Text.hex 4 c.toNat
  else ['\\', 'U'] ++ Text.hex 8 c.toNat

/-- Truth values are integers too. -/
def integer? : Datum → Option Int
  | .int i => some i
  | .bool b => some (if b then 1 else 0)
  | _ => none

def truncated (x : Float) : Except Fault Int :=
  if Double.isNaN x then .error .notANumber
  else if Double.isInfinite x then .error .infinite
  else .ok (Int.tdiv (Double.signedNumerator x) (Double.denominator x))

def wholeNumber (letter : Char) (d : Datum) : Except Fault Int :=
  match integer? d, d with
  | some i, _ => .ok i
  | none, .number x => truncated x
  | none, _ => .error (.noNumber letter d.kindName)

def properInteger (letter : Char) (d : Datum) : Except Fault Int :=
  match integer? d with
  | some i => .ok i
  | none => .error (.noInteger letter d.kindName)

def realNumber (d : Datum) : Except Fault Float :=
  match integer? d, d with
  | some i, _ => match Double.ofInt? i with
    | some x => .ok x
    | none => .error .integerTooLarge
  | none, .number x => .ok x
  | none, _ => .error (.noDouble d.kindName)

def character : Datum → Except Fault (List Char)
  | .text s => match s.toList with
    | [c] => .ok [c]
    | _ => .error .noCharacter
  | d => match integer? d with
    | some i => if 0 ≤ i && i < 0x110000 then .ok [Char.ofNat i.toNat] else .error .outsideUnicode
    | none => .error .noCharacter

def convert (p : Place) (letter : Char) (index : Nat) (d : Datum) : Except Fault (List Char) :=
  let capitals (cs : List Char) : List Char := cs.map Char.toUpper
  match letter with
  | 's' => .ok (p.text (display d))
  | 'r' => .ok (p.text d.shown.toList)
  | 'a' => .ok (p.text (d.shown.toList.flatMap asciiChar))
  | 'c' => (character d).map fun cs => p.fill false [] cs
  | 'o' => (properInteger letter d).map (p.integer 8 ['0', 'o'])
  | 'x' => (properInteger letter d).map (p.integer 16 ['0', 'x'])
  | 'X' => (properInteger letter d).map fun i => capitals (p.integer 16 ['0', 'x'] i)
  | 'e' => (realNumber d).map (p.double Rounded.scientific)
  | 'E' => (realNumber d).map fun x => capitals (p.double Rounded.scientific x)
  | 'f' => (realNumber d).map (p.double Rounded.fixed)
  | 'F' => (realNumber d).map fun x => capitals (p.double Rounded.fixed x)
  | 'g' => (realNumber d).map (p.double Rounded.general)
  | 'G' => (realNumber d).map fun x => capitals (p.double Rounded.general x)
  | _ =>
    if letter = 'd' || letter = 'i' || letter = 'u' then
      (wholeNumber letter d).map (p.integer 10 [])
    else .error (.unsupported letter index)

/-- The key up to the parenthesis that closes `depth` open ones, and what follows it. -/
def key? : (depth : Nat) → List Char → Option (List Char × List Char)
  | _, [] => none
  | depth, c :: rest =>
    if c = ')' && depth ≤ 1 then some ([], rest)
    else
      let depth := if c = ')' then depth - 1 else if c = '(' then depth + 1 else depth
      (key? depth rest).map fun (key, rest) => (c :: key, rest)

/-- A key chooses the only value of the supply. -/
def takeKey (supply : Supply) : List Char → Except Fault (Supply × List Char)
  | '(' :: rest =>
    match supply.mapping with
    | none => .error .noMapping
    | some fields =>
      match key? 1 rest with
      | none => .error .incompleteKey
      | some (key, rest) =>
        match Entries.get? fields (String.ofList key) with
        | none => .error (.missingKey (String.ofList key))
        | some value => .ok (⟨[value], some fields⟩, rest)
  | rest => .ok (supply, rest)

def takeValue (supply : Supply) : Except Fault (Datum × Supply) :=
  match supply.values with
  | [] => .error .tooFewValues
  | value :: values => .ok (value, ⟨values, supply.mapping⟩)

structure SizeLimit where
  name : String
  largest : Nat

def widthLimit : SizeLimit := ⟨"width", 0x7FFFFFFFFFFFFFFF⟩

def precisionLimit : SizeLimit := ⟨"precision", 0x7FFFFFFF⟩

def checkSize (limit : SizeLimit) (size : Int) : Except Fault Int :=
  if limit.largest < size.natAbs then .error (.sizeTooLarge limit.name) else .ok size

/-- A number in the template, or the next value in place of an asterisk. -/
def takeSize (limit : SizeLimit) (supply : Supply) :
    List Char → Except Fault (Int × Supply × List Char)
  | '*' :: rest => do
    let (value, supply) ← takeValue supply
    match integer? value with
    | none => .error .sizeNotInteger
    | some i => (checkSize limit i).map (·, supply, rest)
  | cs =>
    (checkSize limit (Decimal.digitsValue (cs.takeWhile Char.isDigit))).map
      (·, supply, cs.dropWhile Char.isDigit)

def takePrecision (supply : Supply) :
    List Char → Except Fault (Option Nat × Supply × List Char)
  | '.' :: rest =>
    (takeSize precisionLimit supply rest).map fun (i, supply, rest) => (some i.toNat, supply, rest)
  | rest => .ok (none, supply, rest)

def isFlag (c : Char) : Bool := ['-', '+', ' ', '#', '0'].contains c

/-- Letters that say how large a value is have no meaning. -/
def dropSizeLetter : List Char → List Char
  | c :: rest => if c = 'h' || c = 'l' || c = 'L' then rest else c :: rest
  | [] => []

def place (length : Nat) (supply : Supply) (cs : List Char) :
    Except Fault (List Char × Supply × List Char) := do
  let (supply, cs) ← takeKey supply cs
  let flags := cs.takeWhile isFlag
  let (width, supply, cs) ← takeSize widthLimit supply (cs.dropWhile isFlag)
  let (precision, supply, cs) ← takePrecision supply cs
  let p : Place := ⟨if width < 0 then '-' :: flags else flags, width.natAbs, precision⟩
  match dropSizeLetter cs with
  | [] => .error .incomplete
  | letter :: cs =>
    let (value, supply) ← takeValue supply
    let text ← convert p letter (length - cs.length - 1) value
    .ok (text, supply, cs)

/-- Writes all places from left to right; `fuel` bounds the number of steps. -/
def expand (length : Nat) : (fuel : Nat) → Supply → List Char → Except Fault (List Char)
  | 0, _, _ => .ok []
  | fuel + 1, supply, cs =>
    match cs with
    | [] =>
      if supply.mapping.isNone && !supply.values.isEmpty then .error .tooManyValues else .ok []
    | '%' :: '%' :: rest => (expand length fuel supply rest).map ('%' :: ·)
    | '%' :: rest =>
      match place length supply rest with
      | .error fault => .error fault
      | .ok (text, supply, rest) => (expand length fuel supply rest).map (text ++ ·)
    | c :: rest => (expand length fuel supply rest).map (c :: ·)

/-- The message of a template and its values; without values the template is the message. -/
def message (template : String) (values : List Datum) : Except Fault String :=
  if values.isEmpty then .ok template
  else
    let cs := template.toList
    (expand cs.length (cs.length + 1) (.ofValues values) cs).map String.ofList

end Calculator.Log.Template
