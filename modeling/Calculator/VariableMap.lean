import Calculator.Failure
/-!
Mappings from variable names to values, in the order in which the names were first stored. A
`Request` is one operation on a mapping; a failed one leaves the mapping as it was.
-/
namespace Calculator

structure VariableMap where
  entries : Entries String Datum := []

namespace VariableMap

def empty : VariableMap := {}

def get? (m : VariableMap) (name : String) : Option Datum := Entries.get? m.entries name

def contains (m : VariableMap) (name : String) : Bool := (m.get? name).isSome

def set (m : VariableMap) (name : String) (value : Datum) : VariableMap :=
  ⟨Entries.put m.entries name value⟩

def erase (m : VariableMap) (name : String) : VariableMap := ⟨Entries.erase m.entries name⟩

def update (m : VariableMap) (entries : Entries String Datum) : VariableMap :=
  entries.foldl (fun m entry => m.set entry.1 entry.2) m

def keys (m : VariableMap) : List String := Entries.keys m.entries

def size (m : VariableMap) : Nat := m.entries.length

def ofEntries (entries : Entries String Datum) : VariableMap := empty.update entries

def shown (m : VariableMap) : String := "VariableMap(" ++ (Datum.record m.entries).shown ++ ")"

/-- The same names with the same values, in whatever order. -/
def sameAs (m : VariableMap) (entries : Entries String Datum) : Bool :=
  (Datum.record m.entries).same (.record entries)

/-- Removes a name and tells its value; null stands for a name that was absent. -/
def remove (m : VariableMap) (name : String) : VariableMap × Datum :=
  (m.erase name, (m.get? name).getD .null)

def setNumber (m : VariableMap) (name : String) (value : Datum) : Except Failure VariableMap :=
  match value.toDouble with
  | .ok x => .ok (m.set name (.number x))
  | .error e => .error (.conversion e)

inductive Request where
  | set (name : String) (value : Datum)
  | get (name : String) (otherwise : Datum)
  | item (name : String)
  | delete (name : String)
  | pop (name : String) (otherwise : Option Datum)
  | popFirst
  | setDefault (name : String) (value : Datum)
  | update (entries : Entries String Datum)
  | clear
  | contains (name : String)
  | sameAs (entries : Entries String Datum)
  | size

structure Reply where
  map : VariableMap
  answer : Except Failure Datum

def Reply.missing (m : VariableMap) (key : Option String) : Reply := ⟨m, .error (.missingKey key)⟩

def answer (m : VariableMap) : Request → Reply
  | .set name value => ⟨m.set name value, .ok .null⟩
  | .get name otherwise => ⟨m, .ok ((m.get? name).getD otherwise)⟩
  | .item name =>
    match m.get? name with
    | some value => ⟨m, .ok value⟩
    | none => .missing m (some name)
  | .delete name => if m.contains name then ⟨m.erase name, .ok .null⟩ else .missing m (some name)
  | .pop name otherwise =>
    match m.get? name, otherwise with
    | some value, _ => ⟨m.erase name, .ok value⟩
    | none, some value => ⟨m, .ok value⟩
    | none, none => .missing m (some name)
  | .popFirst =>
    match m.entries with
    | (name, value) :: _ => ⟨m.erase name, .ok (.list [.text name, value])⟩
    | [] => .missing m none
  | .setDefault name value =>
    match m.get? name with
    | some present => ⟨m, .ok present⟩
    | none => ⟨m.set name value, .ok value⟩
  | .update entries => ⟨m.update entries, .ok .null⟩
  | .clear => ⟨empty, .ok .null⟩
  | .contains name => ⟨m, .ok (.bool (m.contains name))⟩
  | .sameAs entries => ⟨m, .ok (.bool (m.sameAs entries))⟩
  | .size => ⟨m, .ok (.int m.size)⟩

def run (m : VariableMap) (requests : List Request) : VariableMap :=
  requests.foldl (fun m request => (m.answer request).map) m

end VariableMap

end Calculator
