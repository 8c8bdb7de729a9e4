/-!
The text of the help.
-/
namespace Calculator.CommandLine

def usage : List String := [
  "usage: mathexpr [-h] [-v NAME=VALUE] [--context CONTEXT] [--show-tree] [-q]",
  "                expression"]

def help : List String := usage ++ [
  "",
  "Evaluate an arithmetic expression.",
  "",
  "positional arguments:",
  "  expression            Expression to evaluate, e.g. '2a + sin(pi / 2)'.",
  "",
  "options:",
  "  -h, --help            show this help message and exit",
  "  -v NAME=VALUE, --var NAME=VALUE",
  "                        Set a variable; may be repeated.",
  "  --context CONTEXT     YAML file with extra constants and function aliases",
  "                        (defaults to MATHEXPR_CONTEXT_FILE).",
  "  --show-tree           Print the parsed elements before the result.",
  "  -q, --quiet           Suppress error details."]

end Calculator.CommandLine
