import Calculator.Decimal
import Calculator.Operator
import Calculator.Text.Quoted
/-!
Elements and formulas. A formula is a flat sequence of elements with the scope its names are looked
up in; only groups and calls own further formulas. `Element.describe` names an element, and
`Formula.render` writes a formula so that it can be read again.
-/
namespace Calculator

/-- References to the variable mapping and to the context that a formula uses. They are shared, not
copied, so what is set through one formula is seen by all that refer to the same mapping. -/
structure Scope where
  mapping : Nat
  context : Nat
  deriving DecidableEq, Repr

mutual
inductive Element where
  | number (value : Float)
  | operator (op : Operator)
  | group (inner : Formula)
  | call (name : String) (arguments : List Formula)
  | variable (name : String)
  | comma

inductive Formula where
  | mk (scope : Scope) (elements : List Element)
end

inductive Kind where
  | number
  | operator
  | group
  | call
  | variable
  | comma
  deriving DecidableEq, Repr

namespace Kind

def all : List Kind := [.number, .operator, .group, .call, .variable, .comma]

def title : Kind → String
  | .number => "Number"
  | .operator => "Operator"
  | .group => "Parenthesis"
  | .call => "Function"
  | .variable => "Variable"
  | .comma => "Comma"

def name (k : Kind) : String := k.title.toUpper

end Kind

namespace Formula

def scope : Formula → Scope
  | .mk scope _ => scope

def elements : Formula → List Element
  | .mk _ elements => elements

def isEmpty (f : Formula) : Bool := f.elements.isEmpty

end Formula

namespace Element

/-- A call without the arguments that have no elements, so that empty parentheses give none. -/
def callOf (name : String) (arguments : List Formula) : Element :=
  .call name (arguments.filter fun f => !f.isEmpty)

def kind : Element → Kind
  | .number _ => .number
  | .operator _ => .operator
  | .group _ => .group
  | .call _ _ => .call
  | .variable _ => .variable
  | .comma => .comma

def isOperand : Element → Bool
  | .operator _ => false
  | .comma => false
  | _ => true

def isComplete (e : Element) : Bool := e.isOperand

def arity? : Element → Option Nat
  | .call _ arguments => some arguments.length
  | _ => none

mutual
def describe : Element → String
  | .number value => "Number(" ++ Decimal.text value ++ ")"
  | .operator op => "Operator(" ++ op.name ++ ")"
  | .group inner => "Parenthesis(" ++ describeFormula inner ++ ")"
  | .call name arguments =>
    "Function('" ++ name ++ "', " ++ Text.bracketed (describeFormulas arguments) ++ ")"
  | .variable name => "Variable('" ++ name ++ "')"
  | .comma => "Comma()"

def describeFormula : Formula → String
  | .mk _ elements => Text.bracketed (describeAll elements)

def describeFormulas : List Formula → List String
  | [] => []
  | f :: rest => describeFormula f :: describeFormulas rest

def describeAll : List Element → List String
  | [] => []
  | e :: rest => describe e :: describeAll rest
end

/-- An integer without point or exponent, any other double by its shortest text. -/
def numeral (x : Float) : String :=
  match Double.toInt? x with
  | some i => toString i
  | none => Decimal.text x

/-- A sign is an operator in front of a sequence or behind another operator. -/
def isSignAfter (previous : Option Element) : Element → Bool
  | .operator _ => match previous with
    | none => true
    | some (.operator _) => true
    | _ => false
  | _ => false

/-- No blank comes before the first element, before a comma and behind a sign. -/
def gap (beforePrevious previous : Option Element) : Element → String
  | .comma => ""
  | _ => match previous with
    | none => ""
    | some p => if isSignAfter beforePrevious p then "" else " "

mutual
def render : Element → String
  | .number value => numeral value
  | .operator op => op.symbol.toString
  | .group inner => "(" ++ renderFormula inner ++ ")"
  | .call name arguments =>
    name ++ "(" ++ String.intercalate ", " (renderFormulas arguments) ++ ")"
  | .variable name => name
  | .comma => ","

def renderFormula : Formula → String
  | .mk _ elements => renderFrom none none elements

def renderFormulas : List Formula → List String
  | [] => []
  | f :: rest => renderFormula f :: renderFormulas rest

/-- The elements that follow the two given ones. -/
def renderFrom (beforePrevious previous : Option Element) : List Element → String
  | [] => ""
  | e :: rest => gap beforePrevious previous e ++ render e ++ renderFrom previous (some e) rest
end

mutual
/-- Equality of elements, whatever the scopes of the formulas that they own. -/
def same : Element → Element → Bool
  | .number x, .number y => x == y
  | .operator a, .operator b => a == b
  | .group f, .group g => sameFormula f g
  | .call m fs, .call n gs => m == n && sameFormulas fs gs
  | .variable m, .variable n => m == n
  | .comma, .comma => true
  | _, _ => false

def sameFormula : Formula → Formula → Bool
  | .mk _ xs, .mk _ ys => sameAll xs ys

def sameFormulas : List Formula → List Formula → Bool
  | [], [] => true
  | f :: fs, g :: gs => sameFormula f g && sameFormulas fs gs
  | _, _ => false

def sameAll : List Element → List Element → Bool
  | [], [] => true
  | x :: xs, y :: ys => same x y && sameAll xs ys
  | _, _ => false
end

end Element

/-- The text of a formula, which reads as the same formula if all its numbers are finite. -/
def Formula.render (f : Formula) : String := Element.renderFormula f

end Calculator
