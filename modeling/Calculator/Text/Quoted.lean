import Calculator.Text.Printable
/-!
Quoted text: printable characters stand for themselves between quotes, all others are escaped. The
quotes are single unless the text has single quotes and no double ones.
-/
namespace Calculator.Text

def hexDigit (n : Nat) : Char := (Nat.digitChar (n % 16)).toLower

def hex : (width n : Nat) → List Char
  | 0, _ => []
  | width + 1, n => hex width (n / 16) ++ [hexDigit n]

def quoteMark (cs : List Char) : Char :=
  if cs.contains '\'' && !cs.contains '"' then '"' else '\''

def quoteChar (mark c : Char) : List Char :=
  if c = mark || c = '\\' then ['\\', c]
  else if c = '\n' then ['\\', 'n']
  else if c = '\r' then ['\\', 'r']
  else if c = '\t' then ['\\', 't']
  else if isPrintable c then [c]
  else if c.toNat < 0x100 then ['\\', 'x'] ++ hex 2 c.toNat
  else if c.toNat < 0x10000 then ['\\', 'u'] ++ hex 4 c.toNat
  else ['\\', 'U'] ++ hex 8 c.toNat

def quoteChars (cs : List Char) : List Char :=
  quoteMark cs :: cs.flatMap (quoteChar (quoteMark cs)) ++ [quoteMark cs]

def quoted (s : String) : String := String.ofList (quoteChars s.toList)

/-- Items between brackets, each after the first behind a comma and a blank. -/
def bracketed (items : List String) : String := "[" ++ String.intercalate ", " items ++ "]"

end Calculator.Text
