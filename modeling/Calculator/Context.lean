import Calculator.Failure
import Calculator.Text.LowerCase
/-!
Contexts: a table of functions by name and number of arguments, and a table of constants whose names
are compared in lower case.
-/
namespace Calculator

/-- A function of the table. It is given a random number besides its arguments, and may refuse
these. -/
abbrev Function := Float → List Float → Except Refusal Float

structure FunctionTable where
  entries : Entries (String × Nat) Function := []

namespace FunctionTable

def lookup (t : FunctionTable) (name : String) (arity : Nat) : Option Function :=
  Entries.get? t.entries (name, arity)

def put (t : FunctionTable) (name : String) (arity : Nat) (f : Function) : FunctionTable :=
  ⟨Entries.put t.entries (name, arity) f⟩

def add (t : FunctionTable) (name : String) (f : Function) (arity : Int) :
    Except Failure FunctionTable :=
  if arity < 0 then .error (.negativeArity arity) else .ok (t.put name arity.toNat f)

def named (t : FunctionTable) (name : String) : Entries (String × Nat) Function :=
  t.entries.filter fun entry => entry.1.1 = name

def addAlias (t : FunctionTable) (newName name : String) : Except Failure FunctionTable :=
  let found := t.named name
  if found.isEmpty then .error (.missingKey (some name))
  else .ok (found.foldl (fun t entry => t.put newName entry.1.2 entry.2) t)

def remove (t : FunctionTable) (name : String) (arity : Option Int) : FunctionTable :=
  ⟨t.entries.filter fun entry =>
    !(entry.1.1 = name && (match arity with
      | none => true
      | some n => (entry.1.2 : Int) = n))⟩

def arities (t : FunctionTable) (name : String) : List Nat :=
  ((t.named name).map fun entry => entry.1.2).mergeSort fun m n => decide (m ≤ n)

def names (t : FunctionTable) : List String :=
  ((t.entries.map fun entry => entry.1.1).eraseDups).mergeSort fun s t => decide (s ≤ t)

def contains (t : FunctionTable) (name : String) : Bool :=
  t.entries.any fun entry => entry.1.1 = name

end FunctionTable

structure ConstantTable where
  entries : Entries String Float := []

namespace ConstantTable

def lookup (t : ConstantTable) (name : String) : Option Float :=
  Entries.get? t.entries (Text.lower name)

def put (t : ConstantTable) (name : String) (value : Float) : ConstantTable :=
  ⟨Entries.put t.entries (Text.lower name) value⟩

/-- Stores values one after the other, up to the first that is no number. -/
def addAll (t : ConstantTable) : Entries String Datum → ConstantTable × Option Failure
  | [] => (t, none)
  | (name, value) :: rest =>
    match value.toDouble with
    | .ok x => (t.put name x).addAll rest
    | .error e => (t, some (.conversion e))

def remove (t : ConstantTable) (name : String) : ConstantTable :=
  ⟨Entries.erase t.entries (Text.lower name)⟩

def names (t : ConstantTable) : List String :=
  (Entries.keys t.entries).mergeSort fun s t => decide (s ≤ t)

def contains (t : ConstantTable) (name : String) : Bool := (t.lookup name).isSome

end ConstantTable

structure Context where
  name : String
  functions : FunctionTable := {}
  constants : ConstantTable := {}

end Calculator
