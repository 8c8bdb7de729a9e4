import Calculator.Yaml.Moment
/-!
What a plain scalar stands for, by its text alone: a truth value, an integer, a floating number, a
moment, nothing, a merge, the default value of a mapping, or else the text itself.
-/
namespace Calculator.Yaml

inductive Meaning where
  | null
  | truth
  | integer
  | floating
  | binary
  | moment
  | orderedMap
  | pairs
  | set
  | text
  | sequence
  | mapping
  | merge
  | default
  deriving DecidableEq

namespace Meaning

def tagStart : String := "tag:yaml.org,2002:"

def names : List (String × Meaning) := [
  ("null", .null), ("bool", .truth), ("int", .integer), ("float", .floating),
  ("binary", .binary), ("timestamp", .moment), ("omap", .orderedMap), ("pairs", .pairs),
  ("set", .set), ("str", .text), ("seq", .sequence), ("map", .mapping), ("merge", .merge),
  ("value", .default)]

def ofTag? (tag : String) : Option Meaning :=
  (names.find? fun (name, _) => tagStart ++ name = tag).map Prod.snd

end Meaning

def isDigitOrUnderscore (c : Char) : Bool := c.isDigit || c = '_'

def dropSign : List Char → List Char
  | '-' :: rest => rest
  | '+' :: rest => rest
  | cs => cs

/-- What follows a digit and the digits and underscores behind it. -/
def afterDigits? : List Char → Option (List Char)
  | c :: rest => if c.isDigit then some (rest.dropWhile isDigitOrUnderscore) else none
  | [] => none

/-- Nothing, or an exponent with a sign. -/
def isSignedExponent : List Char → Bool
  | [] => true
  | e :: sign :: rest =>
    (e = 'e' || e = 'E') && (sign = '-' || sign = '+') && !rest.isEmpty && rest.all Char.isDigit
  | _ => false

/-- What follows a colon and a number below 60, as often as possible. -/
def afterSixties : List Char → List Char
  | ':' :: a :: b :: rest =>
    if a.isDigit && b.isDigit && a ≤ '5' then afterSixties rest
    else if a.isDigit && !b.isDigit then afterSixties (b :: rest)
    else ':' :: a :: b :: rest
  | [':', a] => if a.isDigit then [] else [':', a]
  | cs => cs
termination_by cs => cs.length

def isPointAndDigits : List Char → Bool
  | '.' :: rest => rest.all isDigitOrUnderscore
  | _ => false

def isFloating (cs : List Char) : Bool :=
  let body := dropSign cs
  let word := String.ofList body
  [".inf", ".Inf", ".INF"].contains word ||
    [".nan", ".NaN", ".NAN"].contains (String.ofList cs) ||
    (match afterDigits? body with
      | some ('.' :: rest) => isSignedExponent (rest.dropWhile isDigitOrUnderscore)
      | some (':' :: rest) =>
        let after := afterSixties (':' :: rest)
        after.length ≤ rest.length && isPointAndDigits after
      | _ => false) ||
    (match cs with
      | '.' :: rest => (match afterDigits? rest with
        | some rest => isSignedExponent rest
        | none => false)
      | _ => false)

def isInteger (cs : List Char) : Bool :=
  match dropSign cs with
  | ['0'] => true
  | '0' :: 'b' :: rest => !rest.isEmpty && rest.all fun c => c = '0' || c = '1' || c = '_'
  | '0' :: 'x' :: rest =>
    !rest.isEmpty && rest.all fun c =>
      c.isDigit || ('a' ≤ c && c ≤ 'f') || ('A' ≤ c && c ≤ 'F') || c = '_'
  | '0' :: rest => rest.all fun c => ('0' ≤ c && c ≤ '7') || c = '_'
  | c :: rest =>
    c.isDigit && (match rest.dropWhile isDigitOrUnderscore with
      | [] => true
      | ':' :: rest => (afterSixties (':' :: rest)).isEmpty
      | _ => false)
  | [] => false

def truthWords : List (String × Bool) := [
  ("yes", true), ("no", false), ("true", true), ("false", false), ("on", true), ("off", false)]

/-- A word in small letters, in capitals, or with a capital in front. -/
def isCased (word text : String) : Bool :=
  text = word || text = word.toUpper || text = word.capitalize

/-- The sort of a plain scalar. A line break at its end does not count, unless it is alone. -/
def Meaning.ofPlain (text : String) : Meaning :=
  let cs := if text = "\n" then ['\n'] else dropFinalBreak text.toList
  let text := String.ofList cs
  if text.isEmpty || text = "~" || isCased "null" text then .null
  else if truthWords.any fun (word, _) => isCased word text then .truth
  else if isFloating cs then .floating
  else if isInteger cs then .integer
  else if text = "<<" then .merge
  else if isMoment cs then .moment
  else if text = "=" then .default
  else .text

end Calculator.Yaml
