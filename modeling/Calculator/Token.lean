import Calculator.Text.Blank
/-!
Tokens. `scan` splits a text into the longest lexemes of each class, passes over blanks, and puts a
multiplication sign between a number or a name and the name behind it.
-/
namespace Calculator

inductive TokenKind where
  | number
  | identifier
  | operator
  | comma
  | opening
  | closing
  | ending
  deriving DecidableEq, Repr

def TokenKind.name : TokenKind → String
  | .number => "NUMBER"
  | .identifier => "IDENTIFIER"
  | .operator => "OPERATOR"
  | .comma => "COMMA"
  | .opening => "LPAREN"
  | .closing => "RPAREN"
  | .ending => "EOF"

/-- A lexeme with its kind and its position, counted in characters. -/
structure Token where
  kind : TokenKind
  lexeme : List Char
  position : Nat
  deriving DecidableEq, Repr

namespace Token

def text (t : Token) : String := String.ofList t.lexeme

def describe (t : Token) : String :=
  "Token(" ++ t.kind.name ++ ", '" ++ t.text ++ "', pos=" ++ toString t.position ++ ")"

end Token

namespace Lexeme

def isNameStart (c : Char) : Bool := c.isAlpha || c = '_'

def isNameChar (c : Char) : Bool := c.isAlphanum || c = '_'

def isOperator (c : Char) : Bool := c = '^' || c = '*' || c = '/' || c = '+' || c = '-'

def isDigitOrPoint (c : Char) : Bool := Text.isDigit c || c = '.'

/-- The longest run of digits and points in front, if it is no number because of a second point. A
run that begins with two points is not taken for a number at all. -/
def malformed? (cs : List Char) : Option (List Char) :=
  let run := cs.takeWhile isDigitOrPoint
  if run.count '.' < 2 || run.take 2 = ['.', '.'] then none else some run

def sign : List Char → List Char
  | '+' :: _ => ['+']
  | '-' :: _ => ['-']
  | _ => []

/-- The longest exponent in front, which is empty where no digits follow. -/
def exponent : List Char → List Char
  | [] => []
  | e :: rest =>
    if e = 'e' || e = 'E' then
      let digits := (rest.drop (sign rest).length).takeWhile Text.isDigit
      if digits.isEmpty then [] else e :: sign rest ++ digits
    else []

def fraction : List Char → List Char
  | '.' :: rest => '.' :: rest.takeWhile Text.isDigit
  | _ => []

/-- The longest number in front: digits with at most one point, and an exponent. -/
def number? (cs : List Char) : Option (List Char) :=
  let whole := cs.takeWhile Text.isDigit
  let rest := cs.drop whole.length
  if whole.isEmpty && (fraction rest).length ≤ 1 then none
  else some (whole ++ fraction rest ++ exponent (rest.drop (fraction rest).length))

end Lexeme

inductive Front where
  | token (kind : TokenKind) (lexeme : List Char)
  | blank
  | malformed (run : List Char)
  | invalid

def Front.of (c : Char) (rest : List Char) : Front :=
  match Lexeme.malformed? (c :: rest) with
  | some run => .malformed run
  | none =>
    match Lexeme.number? (c :: rest) with
    | some lexeme => .token .number lexeme
    | none =>
      if Lexeme.isNameStart c then .token .identifier (c :: rest.takeWhile Lexeme.isNameChar)
      else if Lexeme.isOperator c then .token .operator [c]
      else if c = ',' then .token .comma [c]
      else if c = '(' then .token .opening [c]
      else if c = ')' then .token .closing [c]
      else if Text.isBlank c then .blank
      else .invalid

inductive ScanError where
  | malformedNumber (run : List Char) (position : Nat)
  | invalidCharacter (c : Char) (position : Nat)
  deriving DecidableEq, Repr

/-- The tokens of a text whose first character has the given position. -/
def scanFrom (position : Nat) : List Char → Except ScanError (List Token)
  | [] => .ok [⟨.ending, [], position⟩]
  | c :: rest =>
    match Front.of c rest with
    | .token kind lexeme => do
      let tokens ← scanFrom (position + lexeme.length) (rest.drop (lexeme.length - 1))
      .ok (⟨kind, lexeme, position⟩ :: tokens)
    | .blank => scanFrom (position + 1) rest
    | .malformed run => .error (.malformedNumber run position)
    | .invalid => .error (.invalidCharacter c position)
termination_by cs => cs.length
decreasing_by all_goals simp only [List.length_drop, List.length_cons]; omega

/-- Whether a multiplication is understood between two tokens. -/
def multiplies (t next : Token) : Bool :=
  (t.kind = .number || t.kind = .identifier) && next.kind = .identifier

def withMultiplications : List Token → List Token
  | t :: next :: rest =>
    if multiplies t next then
      t :: ⟨.operator, ['*'], t.position + t.lexeme.length⟩ :: withMultiplications (next :: rest)
    else t :: withMultiplications (next :: rest)
  | tokens => tokens

def scan (text : List Char) : Except ScanError (List Token) := do
  let tokens ← scanFrom 0 text
  .ok (withMultiplications tokens)

end Calculator
