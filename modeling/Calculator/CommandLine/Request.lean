import Calculator.CommandLine.Item
import Calculator.Decimal
/-!
Requests: what a list of arguments asks for. Switches act in their order, and every argument that is
neither taken by a switch nor the expression is left over.
-/
namespace Calculator.CommandLine

/-- A calculation as the arguments ask for it, with the assignments of variables in their order. It
is hollow if an assignment has the separator in the place of its text. -/
structure Request where
  expression : String
  assignments : List (String × Float) := []
  context : Option String := none
  tree : Bool := false
  quiet : Bool := false
  hollow : Bool := false

inductive Stop where
  | help
  | misuse (m : Misuse)

/-- What has been read so far; the texts left over stand in reverse. -/
structure Draft where
  expression : Option String := none
  assignments : List (String × Float) := []
  context : Option String := none
  tree : Bool := false
  quiet : Bool := false
  hollow : Bool := false
  leftOver : List String := []

/-- A name and its value around the first equals sign; blanks around the name are dropped. -/
def assignment (text : List Char) : Except Misuse (String × Float) :=
  match splitAtSign text with
  | (_, none) => .error (.noAssignment (String.ofList text))
  | (name, some value) =>
    let name := Text.trimBy Text.isBlank name
    if name.isEmpty then .error (.noAssignment (String.ofList text))
    else match Decimal.readChars? value with
      | some x => .ok (String.ofList name, x)
      | none => .error (.notNumber (String.ofList name) (String.ofList value))

namespace Draft

def leave (d : Draft) (text : String) : Draft := { d with leftOver := text :: d.leftOver }

def raise (d : Draft) : Switch → Except Stop Draft
  | .help => .error .help
  | .tree => .ok { d with tree := true }
  | .quiet => .ok { d with quiet := true }
  | s => .error (.misuse (.missingValue s))

def raiseAll (d : Draft) (switches : List Switch) : Except Stop Draft := switches.foldlM raise d

/-- What a switch with a value does; the separator stands for no value. -/
def assign (d : Draft) (s : Switch) (value : List Char) : Except Stop Draft :=
  let isSeparator := value = ['-', '-']
  match s with
  | .variable =>
    if isSeparator then .ok { d with hollow := true }
    else match assignment value with
      | .ok entry => .ok { d with assignments := d.assignments ++ [entry] }
      | .error m => .error (.misuse m)
  | .context => .ok { d with context := if isSeparator then none else some (String.ofList value) }
  | s => .error (.misuse (.needlessValue s (String.ofList value)))

def act (d : Draft) (c : Cluster) : Except Stop Draft :=
  (d.raiseAll c.before).bind fun d => match c.last with
    | .plain s => d.raise s
    | .valued s value => d.assign s value

/-- The first argument proper is the expression; a separator next to it is dropped with it. -/
def readItems (d : Draft) : List Item → Except Stop Draft
  | [] => .ok d
  | .argument text :: rest =>
    match d.expression, rest with
    | none, .separator :: rest => readItems { d with expression := some text } rest
    | none, rest => readItems { d with expression := some text } rest
    | some _, rest => readItems (d.leave text) rest
  | .separator :: rest =>
    if d.expression.isNone && !rest.isEmpty then readItems d rest
    else readItems (d.leave "--") rest
  | .unknown text :: rest => readItems (d.leave text) rest
  | .switches (.error m) :: _ => .error (.misuse m)
  | .switches (.ok c) :: rest =>
    match c.waiting?, rest with
    | some s, .argument text :: rest =>
      (d.act ⟨c.before, .valued s text.toList⟩).bind fun d => readItems d rest
    | some s, _ => .error (.misuse (.missingValue s))
    | none, rest => (d.act c).bind fun d => readItems d rest

def finish (d : Draft) : Except Stop Request :=
  match d.expression, d.leftOver with
  | none, _ => .error (.misuse .missingExpression)
  | some expression, [] =>
    .ok ⟨expression, d.assignments, d.context, d.tree, d.quiet, d.hollow⟩
  | some _, texts => .error (.misuse (.leftOver texts.reverse))

end Draft

def Request.ofArguments (arguments : List String) : Except Stop Request :=
  match itemsOf arguments with
  | .error m => .error (.misuse m)
  | .ok items => (Draft.readItems {} items).bind Draft.finish

end Calculator.CommandLine
