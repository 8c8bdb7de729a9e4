import Calculator.Context
import Calculator.Reduction
import Calculator.Run
import Calculator.VariableMap
/-!
Evaluation of formulas. The operands of a sequence are evaluated from left to right into a row whose
gaps hold binary operators; then the row is reduced tier by tier. Every call has a random number of
its own.
-/
namespace Calculator

/-- The random numbers of an evaluation, by the places of the calls they are drawn for. A place is
given by the indices that lead to it, those of elements and, within a call, of its arguments. No
evaluation comes to a place twice (`Formula.separate_sites`), so any stream of numbers can be laid
out in this way. -/
abbrev Draws := List Nat → Float

structure Environment where
  mapping : Nat → VariableMap
  context : Nat → Context
  draws : Draws

namespace Environment

def withDraws (env : Environment) (draws : Draws) : Environment := { env with draws := draws }

/-- The environment of what stands at an index. -/
def inside (env : Environment) (index : Nat) : Environment :=
  env.withDraws fun place => env.draws (index :: place)

/-- The value of a name: that of the mapping unless it is null, else that of the constants. -/
def value (env : Environment) (scope : Scope) (name : String) : Except Failure Float :=
  let map := env.mapping scope.mapping
  let stored := (map.get? name).getD .null
  match stored with
  | .null =>
    match (env.context scope.context).constants.lookup name with
    | some x => .ok x
    | none => .error (.unknownVariable name map.keys)
  | _ => match stored.toDouble with
    | .ok x => .ok x
    | .error e => .error (.conversion e)

def call (env : Environment) (scope : Scope) (name : String) (arguments : List Float) :
    Run Float :=
  match (env.context scope.context).functions.lookup name arguments.length with
  | none => .fail (.unknownFunction name arguments.length arguments)
  | some f => do
    Run.tell (.calling name arguments)
    match f (env.draws []) arguments with
    | .ok x => pure x
    | .error refusal => .fail (.refused refusal)

end Environment

def fault {α : Type} (violation : Violation) (position : Option Nat) : Run α :=
  .fail (.invalid violation position)

/-- Why the elements of a formula are not evaluated at all. -/
def structureFailure : List Element → Option Failure
  | [] => some .emptyFormula
  | e :: rest =>
    (findViolation (e :: rest)).map fun (index, violation) => .invalid violation (some index)

def Row.value (row : Row Float) : Run Float :=
  match row.reduce Float.neg Operator.combine with
  | some value => pure value
  | none => .fail .outsideRow

mutual
def Element.evaluate (env : Environment) (scope : Scope) : Element → Run Float
  | .number value => pure value
  | .group inner => inner.evaluate env
  | .call name arguments => do env.call scope name (← evaluateAll env 0 arguments)
  | .variable name => .ofExcept (env.value scope name)
  | .operator op => fault (.noValue (.operator op)) none
  | .comma => fault .strayComma none

def evaluateAll (env : Environment) (index : Nat) : List Formula → Run (List Float)
  | [] => pure []
  | f :: rest => do
    let value ← f.evaluate (env.inside index)
    let values ← evaluateAll env (index + 1) rest
    pure (value :: values)

def Formula.evaluate (env : Environment) : Formula → Run Float
  | .mk scope elements =>
    match structureFailure elements with
    | some f => .fail f
    | none => do
      let row ← firstOperand env scope 0 [] elements
      row.value

/-- The row of a sequence with `run` as the operators in front of it. -/
def firstOperand (env : Environment) (scope : Scope) (index : Nat) (run : List Operator) :
    List Element → Run (Row Float)
  | [] =>
    match run.getLast? with
    | none => .fail .emptyFormula
    | some op => fault (.trailingOperator op) (some (index - 1))
  | .comma :: _ => fault .strayComma (some index)
  | .operator op :: rest =>
    if op.isSign then firstOperand env scope (index + 1) (run ++ [op]) rest
    else fault (.cannotStart (.operator op)) (some index)
  | e :: rest => do
    let value ← e.evaluate (env.inside index) scope
    let tail ← nextOperands env scope (index + 1) [] rest
    pure ⟨value :: tail.values, Operator.runSign run :: tail.signs, tail.gaps⟩

/-- The operands behind the first one with `run` as the operators in front of them. -/
def nextOperands (env : Environment) (scope : Scope) (index : Nat) (run : List Operator) :
    List Element → Run (Row Float)
  | [] =>
    match run.getLast? with
    | none => pure ⟨[], [], []⟩
    | some op => fault (.trailingOperator op) (some (index - 1))
  | .comma :: _ => fault .strayComma (some index)
  | .operator op :: rest =>
    match run with
    | [] => nextOperands env scope (index + 1) [op] rest
    | first :: signs =>
      if op.isSign then nextOperands env scope (index + 1) (first :: signs ++ [op]) rest
      else fault (.duplicateOperators first op) (some index)
  | e :: rest =>
    match run with
    | [] => fault (.missingOperator e) (some index)
    | combiner :: signs => do
      let value ← e.evaluate (env.inside index) scope
      let tail ← nextOperands env scope (index + 1) [] rest
      pure ⟨value :: tail.values, Operator.runSign signs :: tail.signs, combiner :: tail.gaps⟩
end

/-- The value of a sequence of elements, whose rules are checked only as far as the row needs. -/
def evaluateElements (env : Environment) (scope : Scope) (elements : List Element) : Run Float := do
  let row ← firstOperand env scope 0 [] elements
  row.value

end Calculator
