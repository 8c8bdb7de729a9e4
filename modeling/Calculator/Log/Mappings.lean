import Calculator.Datum
/-!
Mappings by reference. What a message is given may be held by others as well, its logger among them,
so mappings stand in a store where what is written into one is seen by all who hold it.
-/
namespace Calculator.Log

/-- Data that nobody else holds stand as they are. -/
inductive Value where
  | plain (d : Datum)
  | list (items : List Value)
  | mapping (ref : Nat)

def Value.kindName : Value → String
  | .plain d => d.kindName
  | .list _ => "list"
  | .mapping _ => "dict"

abbrev Fields := Entries String Value

def Fields.plain (fields : Entries String Datum) : Fields :=
  fields.map fun (key, d) => (key, .plain d)

/-- The mappings by their references. -/
abbrev Mappings := List Fields

namespace Mappings

def fields (m : Mappings) (ref : Nat) : Fields := m.getD ref []

def add (m : Mappings) (fields : Fields) : Mappings × Nat := (m ++ [fields], m.length)

def put (m : Mappings) (ref : Nat) (key : String) (v : Value) : Mappings :=
  m.set ref (Entries.put (m.fields ref) key v)

/-- The data that a value stands for, if they go no deeper than `depth`. -/
def read? (m : Mappings) : Nat → Value → Option Datum
  | _, .plain d => some d
  | 0, _ => none
  | depth + 1, .list items => (items.mapM (m.read? depth)).map .list
  | depth + 1, .mapping ref =>
    ((m.fields ref).mapM fun entry => (m.read? depth entry.2).map (entry.1, ·)).map .record

def readFields? (m : Mappings) (depth : Nat) (fields : Fields) : Option (Entries String Datum) :=
  fields.mapM fun entry => (m.read? depth entry.2).map (entry.1, ·)

end Mappings

end Calculator.Log
