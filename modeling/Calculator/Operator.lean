import Calculator.Elementary.Exponential
/-!
The five operators. A tier fires before the next one; those with a sign may also stand before an
operand.
-/
namespace Calculator

inductive Operator where
  | power
  | multiply
  | divide
  | add
  | subtract
  deriving DecidableEq, Repr

inductive Sign where
  | plus
  | minus
  deriving DecidableEq, Repr

namespace Sign

def mul : Sign → Sign → Sign
  | .plus, s => s
  | .minus, .plus => .minus
  | .minus, .minus => .plus

def toInt : Sign → Int
  | .plus => 1
  | .minus => -1

end Sign

namespace Operator

def all : List Operator := [.power, .multiply, .divide, .add, .subtract]

def symbol : Operator → Char
  | .power => '^'
  | .multiply => '*'
  | .divide => '/'
  | .add => '+'
  | .subtract => '-'

def name : Operator → String
  | .power => "POWER"
  | .multiply => "MULTIPLY"
  | .divide => "DIVIDE"
  | .add => "ADD"
  | .subtract => "SUBTRACT"

def ofLexeme? (cs : List Char) : Option Operator := all.find? fun op => [op.symbol] = cs

def tier : Operator → Nat
  | .power => 0
  | .multiply => 1
  | .divide => 1
  | .add => 2
  | .subtract => 2

/-- The tiers in the order in which they fire. -/
def tiers : List Nat := [0, 1, 2]

def sign? : Operator → Option Sign
  | .add => some .plus
  | .subtract => some .minus
  | _ => none

def isSign (op : Operator) : Bool := op.sign?.isSome

/-- The sign that a run of operators gives to the operand behind it. -/
def runSign (run : List Operator) : Sign :=
  run.foldl (fun s op => s.mul (op.sign?.getD .plus)) .plus

def combine : Operator → Float → Float → Float
  | .power, x, y => Elementary.pow x y
  | .multiply, x, y => x * y
  | .divide, x, y => x / y
  | .add, x, y => x + y
  | .subtract, x, y => x - y

end Operator

end Calculator
