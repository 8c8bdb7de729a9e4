import Calculator.Adjacency
import Calculator.Datum
import Calculator.Yaml.Fault
/-!
Failures and what is reported of them. A failure is a cause; `Report` gives the text, the position
and the details of those that concern an expression, `Failure.message` the text of every one.
-/
namespace Calculator

inductive ParseFault where
  | malformedNumber (run : String)
  | invalidCharacter (c : Char)
  | unexpectedName (name : String)
  | variableBeforeNumber (numeral : String)
  | cannotStart (e : Element) (token : String)
  | unexpected (previous : Element) (token : String)
  | strayComma
  | illegalClosing
  | unclosed
  | emptyGroup
  | emptyText
  | incomplete (last : Element)

namespace ParseFault

def message : ParseFault → String
  | .malformedNumber _ => "Malformed numeric literal"
  | .invalidCharacter _ => "Invalid character"
  | .unexpectedName _ => "Unexpected name"
  | .variableBeforeNumber _ => "Cannot have variable directly before a number"
  | .cannotStart e _ => "Cannot start expression with " ++ e.describe
  | .unexpected previous _ =>
    "Unexpected token, expecting " ++ previous.kind.expected ++ " after " ++ previous.describe
  | .strayComma => "Comma outside of a function argument list"
  | .illegalClosing => "Illegal closing parenthesis"
  | .unclosed => "Unclosed parenthesis"
  | .emptyGroup => "Empty parentheses"
  | .emptyText => "Empty expression"
  | .incomplete last => "Incomplete expression ending with " ++ last.describe

def token? : ParseFault → Option String
  | .malformedNumber run => some run
  | .invalidCharacter c => some c.toString
  | .unexpectedName name => some name
  | .variableBeforeNumber numeral => some numeral
  | .cannotStart _ token => some token
  | .unexpected _ token => some token
  | .strayComma => some ","
  | .illegalClosing => some ")"
  | .unclosed => some "("
  | .emptyGroup => some ")"
  | .emptyText => none
  | .incomplete _ => none

end ParseFault

structure SchemaError where
  location : List String
  reason : String

inductive ContextFault where
  | unreadable (path reason : String)
  | schema (path : String) (errors : List SchemaError)
  | unknownAlias (name function : String)

/-- What a function says of arguments that it does not take. -/
structure Refusal where
  message : String

inductive Failure where
  | parse (fault : ParseFault) (position : Nat)
  | emptyFormula
  | unknownVariable (name : String) (known : List String)
  | unknownFunction (name : String) (arity : Nat) (arguments : List Float)
  | invalid (violation : Violation) (position : Option Nat)
  | context (fault : ContextFault)
  | conversion (e : ConversionError)
  | unknownSymbol (symbol : String)
  | negativeArity (arity : Int)
  | missingKey (key : Option String)
  | refused (refusal : Refusal)
  | noSuchPart
  | outsideRow
  | nullInPath
  | yaml (fault : Yaml.Fault)

/-- The kinds of failure that concern an expression. -/
inductive ErrorKind where
  | expression
  | parse
  | evaluation
  | unknownVariable
  | unknownFunction
  | invalidExpression
  | context
  deriving DecidableEq, Repr

def ErrorKind.parent? : ErrorKind → Option ErrorKind
  | .expression => none
  | .unknownVariable => some .evaluation
  | .unknownFunction => some .evaluation
  | _ => some .expression

structure Report where
  kind : ErrorKind
  text : String
  position : Option Int := none
  details : List (String × Datum) := []
  name : Option String := none
  arity : Option Int := none
  token : Option String := none

namespace Report

/-- The text ends with the position and, if there is one, the token. -/
def ofParse (message : String) (position : Option Int) (token : Option String) : Report where
  kind := .parse
  text := match position with
    | none => message
    | some p => message ++ " at position " ++ toString p ++
      (match token with
        | none => ""
        | some t => if t.isEmpty then "" else ": '" ++ t ++ "'")
  position := position
  details := match token with
    | none => []
    | some t => if t.isEmpty then [] else [("token", .text t)]
  token := token

/-- The known names are listed by code point. -/
def ofUnknownVariable (name : String) (known : List String) : Report where
  kind := .unknownVariable
  text := "Variable '" ++ name ++ "' not found in variables " ++
    Text.bracketed ((known.mergeSort fun s t => decide (s ≤ t)).map Text.quoted) ++
    " or built-in constants"
  details := [("variable", .text name)]
  name := some name

def ofUnknownFunction (name : String) (arity : Int) (arguments : List Float) : Report where
  kind := .unknownFunction
  text := "Unknown function " ++ name ++ " taking " ++ toString arity ++ " argument" ++
    (if arity = 1 then "" else "s") ++
    (if arguments.isEmpty then ""
      else " (supplied " ++ Text.bracketed (arguments.map Decimal.text) ++ ")")
  details := [("function", .text name), ("arity", .int arity)]
  name := some name
  arity := some arity

def plain (kind : ErrorKind) (text : String) (position : Option Int)
    (details : List (String × Datum)) : Report where
  kind := kind
  text := text
  position := position
  details := details

end Report

namespace SchemaError

def toDatum (e : SchemaError) : Datum :=
  .list [.list (e.location.map .text), .text e.reason]

end SchemaError

namespace ContextFault

def report : ContextFault → Report
  | .unreadable path reason =>
    .plain .context ("Cannot read context file " ++ path ++ ": " ++ reason) none []
  | .schema path errors =>
    .plain .context ("Invalid context file " ++ path) none
      [("errors", .list (errors.map SchemaError.toDatum))]
  | .unknownAlias name function =>
    .plain .context ("Alias '" ++ name ++ "' refers to unknown function '" ++ function ++ "'") none
      [("alias", .text name), ("function", .text function)]

end ContextFault

namespace Failure

def report? : Failure → Option Report
  | .parse fault position => some (.ofParse fault.message (some position) fault.token?)
  | .emptyFormula => some (.plain .evaluation "Cannot evaluate an empty expression" none [])
  | .unknownVariable name known => some (.ofUnknownVariable name known)
  | .unknownFunction name arity arguments => some (.ofUnknownFunction name arity arguments)
  | .invalid violation position =>
    some (.plain .invalidExpression violation.message (position.map Int.ofNat) [])
  | .context fault => some fault.report
  | _ => none

def message (f : Failure) : String :=
  match f.report? with
  | some r => r.text
  | none => match f with
    | .conversion e => e.message
    | .unknownSymbol symbol => "Could not find operator for symbol " ++ Text.quoted symbol
    | .negativeArity arity => "Arity must be non-negative, got " ++ toString arity
    | .missingKey key => (key.map Text.quoted).getD ""
    | .refused refusal => refusal.message
    | .noSuchPart => "tuple index out of range"
    | .outsideRow => "list index out of range"
    | .nullInPath => "embedded null byte"
    | .yaml fault => fault.message
    | _ => ""

end Failure

end Calculator
