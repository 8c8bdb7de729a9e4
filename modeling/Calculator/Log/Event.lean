import Calculator.Log.Record
import Calculator.Run
/-!
The debug records of events and of failures.
-/
namespace Calculator

def Event.record : Event → Log.Record
  | .parsed text elements => {
    logger := "mathexpr.parser.parser"
    level := 10
    message := "Parsed expression"
    unit := "parser"
    function := some "parse"
    extras := [("text", .text text), ("elements", .int elements)] }
  | .calling function arguments => {
    logger := "mathexpr.parser.evaluator"
    level := 10
    message := "Calling function"
    unit := "evaluator"
    extras := [("function", .text function), ("arguments", .list (arguments.map .number))] }

def Report.record (r : Report) (formula : String) : Log.Record where
  logger := "mathexpr.cli"
  level := 10
  message := "Evaluation failed"
  unit := "cli"
  function := some "main"
  extras := Entries.putAll [("expression", .text formula)] r.details

end Calculator
