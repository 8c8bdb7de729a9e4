import Calculator.Entries
/-!
Settings and the environment variables that they are read from.
-/
namespace Calculator

structure Settings where
  appName : String := "mathexpr"
  logLevel : String := "INFO"
  logFormat : String := "text"
  logFile : Option String := none
  contextFile : Option String := none

/-- Variables of an environment; names are told apart by case. -/
abbrev Variables := Entries String String

namespace Settings

def variableOf (name : String) : String := "MATHEXPR_" ++ name

def names : List String := ["APP_NAME", "LOG_LEVEL", "LOG_FORMAT", "LOG_FILE", "CONTEXT_FILE"]

def ofVariables (env : Variables) : Settings :=
  let value (name : String) : Option String := Entries.get? env (variableOf name)
  let standard : Settings := {}
  { appName := (value "APP_NAME").getD standard.appName
    logLevel := (value "LOG_LEVEL").getD standard.logLevel
    logFormat := (value "LOG_FORMAT").getD standard.logFormat
    logFile := value "LOG_FILE"
    contextFile := value "CONTEXT_FILE" }

end Settings

end Calculator
