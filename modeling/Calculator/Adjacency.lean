import Calculator.Element
/-!
Which elements may stand next to each other. `findViolation` finds the first place where a sequence
breaks the rules, `Formula.isValid` asks for none at any depth.
-/
namespace Calculator

namespace Kind

def successors : Kind → List Kind
  | .number => [.operator, .group, .comma]
  | .group => [.operator, .group, .comma]
  | .call => [.operator, .comma]
  | .variable => [.operator, .comma]
  | .operator => [.number, .group, .call, .variable, .operator]
  | .comma => [.number, .group, .call, .variable, .operator]

/-- The titles of the kinds that may follow, in alphabetical order. -/
def expected (k : Kind) : String :=
  String.intercalate " or " ((k.successors.map Kind.title).mergeSort fun s t => decide (s ≤ t))

end Kind

namespace Element

def isSign : Element → Bool
  | .operator op => op.isSign
  | _ => false

/-- Whether `next` may stand directly behind `previous`; behind an operator or a comma only signs
are operators. -/
def allows (previous next : Element) : Bool :=
  previous.kind.successors.contains next.kind &&
    (match previous.kind, next with
      | .operator, .operator op => op.isSign
      | .comma, .operator op => op.isSign
      | _, _ => true)

def canStart : Element → Bool
  | .comma => false
  | .operator op => op.isSign
  | _ => true

end Element

inductive Violation where
  | empty
  | cannotStart (e : Element)
  | strayComma
  | unexpected (previous e : Element)
  | incomplete (last : Element)
  | duplicateOperators (first second : Operator)
  | missingOperator (e : Element)
  | trailingOperator (op : Operator)
  | noValue (e : Element)

namespace Violation

def message : Violation → String
  | .empty => "Empty expression"
  | .cannotStart e => "Cannot start expression with " ++ e.describe
  | .strayComma => "Comma outside of a function argument list"
  | .unexpected previous e =>
    "Unexpected " ++ e.describe ++ " after " ++ previous.describe ++ ", expecting " ++
      previous.kind.expected
  | .incomplete last => "Incomplete expression ending with " ++ last.describe
  | .duplicateOperators first second =>
    "Duplicate operators: " ++ first.symbol.toString ++ " followed by " ++ second.symbol.toString
  | .missingOperator e => "Missing operator before " ++ e.describe
  | .trailingOperator op => "Incomplete expression, trailing " ++ op.symbol.toString
  | .noValue e => e.describe ++ " has no value of its own"

end Violation

/-- The first violation behind `previous`, which stands at `index`. -/
def findViolationAfter (previous : Element) (index : Nat) : List Element → Option (Nat × Violation)
  | [] => if previous.isComplete then none else some (index, .incomplete previous)
  | .comma :: _ => some (index + 1, .strayComma)
  | e :: rest =>
    if previous.allows e then findViolationAfter e (index + 1) rest
    else some (index + 1, .unexpected previous e)

def findViolation : List Element → Option (Nat × Violation)
  | [] => some (0, .empty)
  | e :: rest => if e.canStart then findViolationAfter e 0 rest else some (0, .cannotStart e)

mutual
def Formula.isValid : Formula → Bool
  | .mk _ elements => (findViolation elements).isNone && allPartsValid elements

def allPartsValid : List Element → Bool
  | [] => true
  | e :: rest => e.partsValid && allPartsValid rest

def Element.partsValid : Element → Bool
  | .group inner => inner.isValid
  | .call _ arguments => allValid arguments
  | _ => true

def allValid : List Formula → Bool
  | [] => true
  | f :: rest => f.isValid && allValid rest
end

end Calculator
