import Calculator.Yaml.Fault
/-!
A place in a YAML text. The text ends with a NUL, which no text may hold itself.
-/
namespace Calculator.Yaml

/-- What is left of a text, and the place reached: characters passed, lines passed, column. -/
structure Cursor where
  rest : List Char
  index : Nat
  line : Nat
  column : Nat

def isBreak (c : Char) : Bool :=
  c = '\n' || c = '\r' || c = '\x85' || c = '\u2028' || c = '\u2029'

def isEnd (c : Char) : Bool := c = '\x00'

def endsLine (c : Char) : Bool := isEnd c || isBreak c

/-- Blank, line break or end, which is what must follow an indicator. -/
def isGap (c : Char) : Bool := c = ' ' || c = '\t' || endsLine c

def isSpace (c : Char) : Bool := c = ' '

def isSpaceOrTab (c : Char) : Bool := c = ' ' || c = '\t'

def isWordChar (c : Char) : Bool := c.isAlphanum || c = '-' || c = '_'

def hexDigitValue? (c : Char) : Option Nat :=
  if c.isDigit then some (c.toNat - '0'.toNat)
  else if 'a' ≤ c && c ≤ 'f' then some (c.toNat - 'a'.toNat + 10)
  else if 'A' ≤ c && c ≤ 'F' then some (c.toNat - 'A'.toNat + 10)
  else none

def hexValue? (cs : List Char) : Option Nat :=
  cs.foldlM (fun n c => (hexDigitValue? c).map (16 * n + ·)) 0

namespace Cursor

def start (text : List Char) : Cursor := ⟨text, 0, 0, 0⟩

def peek (c : Cursor) (n : Nat) : Char := c.rest.getD n '\x00'

def current (c : Cursor) : Char := c.peek 0

/-- Passes one character; a carriage return before a line feed does not end a line yet. -/
def next (c : Cursor) : Cursor :=
  match c.rest with
  | [] => c
  | ch :: rest =>
    if isBreak ch && !(ch = '\r' && rest.head? = some '\n') then
      ⟨rest, c.index + 1, c.line + 1, 0⟩
    else ⟨rest, c.index + 1, c.line, if ch = '\uFEFF' then c.column else c.column + 1⟩

def advance (c : Cursor) : Nat → Cursor
  | 0 => c
  | n + 1 => c.next.advance n

def span (c : Cursor) (p : Char → Bool) : List Char × Cursor :=
  let run := c.rest.takeWhile p
  (run, c.advance run.length)

def skip (c : Cursor) (p : Char → Bool) : Cursor := (c.span p).2

/-- Passes a line break and gives what it stands for, which is nothing if there is none. -/
def lineBreak (c : Cursor) : List Char × Cursor :=
  match c.rest with
  | '\r' :: '\n' :: _ => (['\n'], c.advance 2)
  | ch :: _ =>
    if ch = '\u2028' || ch = '\u2029' then ([ch], c.next)
    else if isBreak ch then (['\n'], c.next)
    else ([], c)
  | [] => ([], c)

/-- Three dashes or three points with a gap behind them. -/
def atDocumentMark (c : Cursor) : Bool :=
  (c.rest.take 3 = ['-', '-', '-'] || c.rest.take 3 = ['.', '.', '.']) && isGap (c.peek 3)

/-- Blanks, a comment and the line break behind them; nothing else may stand there. -/
def restOfLine (c : Cursor) : Except Fault Cursor :=
  let c := c.skip isSpace
  let c := if c.current = '#' then c.skip (fun ch => !endsLine ch) else c
  if endsLine c.current then .ok c.lineBreak.2
  else .error (.malformed "a comment or a line break is expected")

end Cursor

end Calculator.Yaml
