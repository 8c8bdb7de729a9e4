import Calculator.CommandLine.Switch
import Calculator.Text.Quoted
/-!
Misuse: why arguments ask for nothing.
-/
namespace Calculator.CommandLine

inductive Misuse where
  | ambiguous (text : String) (candidates : List String)
  | missingValue (s : Switch)
  | needlessValue (s : Switch) (text : String)
  | noAssignment (text : String)
  | notNumber (name value : String)
  | missingExpression
  | leftOver (texts : List String)

def Misuse.message : Misuse → String
  | .ambiguous text candidates =>
    "ambiguous option: " ++ text ++ " could match " ++ String.intercalate ", " candidates
  | .missingValue s => "argument " ++ s.title ++ ": expected one argument"
  | .needlessValue s text =>
    "argument " ++ s.title ++ ": ignored explicit argument " ++ Text.quoted text
  | .noAssignment text =>
    "argument " ++ Switch.variable.title ++ ": expected NAME=VALUE, got " ++ Text.quoted text
  | .notNumber name value =>
    "argument " ++ Switch.variable.title ++ ": value of " ++ Text.quoted name ++
      " is not a number: " ++ Text.quoted value
  | .missingExpression => "the following arguments are required: expression"
  | .leftOver texts => "unrecognized arguments: " ++ String.intercalate " " texts

end Calculator.CommandLine
