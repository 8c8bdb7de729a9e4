import Calculator.Text.Quoted
/-!
Why a text is not read as a YAML value: because of its form, or because a tagged or plain scalar has
no value of its kind.
-/
namespace Calculator.Yaml

inductive Fault where
  | malformed (what : String)
  | integerDigits (base : Nat) (digits : String)
  | decimalDigits (digits : String)
  | tooManyDigits (digits : Nat)
  | integerTooLarge
  | emptyNumber
  | truthWord (word : String)
  | momentWord
  | momentRange (what : String)
  | characterRange

def malformed {α : Type} (what : String) : Except Fault α := .error (.malformed what)

def Fault.message : Fault → String
  | .malformed what => what
  | .integerDigits base digits =>
    "invalid literal for int() with base " ++ toString base ++ ": " ++ Text.quoted digits
  | .decimalDigits digits => "could not convert string to float: " ++ Text.quoted digits
  | .tooManyDigits digits =>
    "Exceeds the limit (4300 digits) for integer string conversion: value has " ++
      toString digits ++ " digits; use sys.set_int_max_str_digits() to increase the limit"
  | .integerTooLarge => "int too large to convert to float"
  | .emptyNumber => "string index out of range"
  | .truthWord word => Text.quoted word
  | .momentWord => "'NoneType' object has no attribute 'groupdict'"
  | .momentRange what => what
  | .characterRange => "chr() arg not in range(0x110000)"

end Calculator.Yaml
