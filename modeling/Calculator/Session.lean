import Calculator.Evaluation
import Calculator.Parsing
import Calculator.Standard
/-!
Sessions: named formulas, variable mappings and contexts, and the commands on them. Formulas refer
to mappings and contexts, so a change of one of these is seen by every formula that was read with
it.
-/
namespace Calculator

/-- Mappings and contexts in the order of their creation; a name refers to the last one created
under it. -/
structure Session where
  maps : List VariableMap := []
  contexts : List Context := []
  mapNames : Entries String Nat := []
  contextNames : Entries String Nat := []
  formulas : Entries String Formula := []

/-- The formula at a path: the index of an element that owns formulas, for a call also the index of
an argument, and so on. -/
def Formula.descend? (f : Formula) : List Nat → Option Formula
  | [] => some f
  | index :: path =>
    match f.elements[index]?, path with
    | some (.group inner), path => inner.descend? path
    | some (.call _ arguments), argument :: path =>
      match arguments[argument]? with
      | some inner => inner.descend? path
      | none => none
    | _, _ => none

namespace Session

/-- A command to evaluate comes with the random numbers that are drawn meanwhile. -/
inductive Command where
  | createMap (id : String) (entries : Entries String Datum)
  | setEntry (map name : String) (value : Datum)
  | deleteEntry (map name : String)
  | showMap (map : String)
  | parse (id text : String) (map : Option String) (context : String)
  | evaluate (id : String) (path : List Nat) (draws : Draws)
  | setVariable (id : String) (path : List Nat) (name : String) (value : Datum)
  | removeVariable (id : String) (path : List Nat) (name : String)
  | showVariables (id : String) (path : List Nat)
  | showFormula (id : String) (path : List Nat)
  | sharesScope (id : String) (path : List Nat)
  | copyContext (source target : String)
  | createStandard (target : String)
  | createEmpty (target name : String)
  | contextName (context : String)
  | addFunction (context name : String) (function : Function) (arity : Int)
  | aliasFunction (context newName name : String)
  | removeFunction (context name : String) (arity : Option Int)
  | hasFunction (context name : String) (arity : Nat)
  | functionArities (context name : String)
  | functionNames (context : String)
  | lookupConstant (context name : String)
  | removeConstant (context name : String)
  | constantNames (context : String)

/-- A command changes the session only if it succeeds; of constants to be added those in front of
the first that is no number are stored. Any operation on a mapping may be made on a named one. -/
inductive Request where
  | command (c : Command)
  | addConstants (context : String) (entries : Entries String Datum)
  | changeMap (map : String) (request : VariableMap.Request)

inductive Answer where
  | done
  | agreed
  | value (x : Float)
  | datum (d : Datum)
  | fields (entries : Entries String Datum)
  | rendered (f : Formula)
  | formula (f : Formula)
  | flags (first second : Bool)
  | text (s : String)
  | texts (ss : List String)
  | counts (ns : List Nat)
  | constant (x : Option Float)

def start : Session where
  contexts := [Standard.context]
  contextNames := [("main", 0)]

def mapping (s : Session) (ref : Nat) : VariableMap := s.maps.getD ref .empty

def context (s : Session) (ref : Nat) : Context := s.contexts.getD ref ⟨"", {}, {}⟩

def environment (s : Session) (draws : Draws) : Environment := ⟨s.mapping, s.context, draws⟩

def setMap (s : Session) (ref : Nat) (m : VariableMap) : Session :=
  { s with maps := s.maps.set ref m }

def setContext (s : Session) (ref : Nat) (c : Context) : Session :=
  { s with contexts := s.contexts.set ref c }

def addMap (s : Session) (m : VariableMap) : Session := { s with maps := s.maps ++ [m] }

def addContext (s : Session) (name : String) (c : Context) : Session :=
  { s with
    contexts := s.contexts ++ [c]
    contextNames := Entries.put s.contextNames name s.contexts.length }

def named {α : Type} (entries : Entries String α) (name : String) : Except Failure α :=
  match Entries.get? entries name with
  | some a => .ok a
  | none => .error (.missingKey (some name))

def formulaAt (s : Session) (id : String) (path : List Nat) : Except Failure Formula := do
  let f ← named s.formulas id
  match f.descend? path with
  | some inner => .ok inner
  | none => .error .noSuchPart

def parseIn (s : Session) (scope : Scope) (id text : String) :
    Except Failure (Session × Answer) := do
  let f ← Formula.ofText scope text
  .ok ({ s with formulas := Entries.put s.formulas id f }, .rendered f)

def changeFunctions (s : Session) (context : String)
    (change : FunctionTable → Except Failure FunctionTable) :
    Except Failure (Session × Answer) := do
  let ref ← named s.contextNames context
  let c := s.context ref
  let functions ← change c.functions
  .ok (s.setContext ref { c with functions := functions }, .done)

def answer (s : Session) : Command → Except Failure (Session × Answer)
  | .createMap id entries =>
    .ok ({ s.addMap (.ofEntries entries) with
      mapNames := Entries.put s.mapNames id s.maps.length }, .done)
  | .setEntry map name value => do
    let ref ← named s.mapNames map
    .ok (s.setMap ref ((s.mapping ref).set name value), .done)
  | .deleteEntry map name => do
    let ref ← named s.mapNames map
    let (m, old) := (s.mapping ref).remove name
    .ok (s.setMap ref m, .datum old)
  | .showMap map => do
    let ref ← named s.mapNames map
    .ok (s, .fields (s.mapping ref).entries)
  | .parse id text map context => do
    let contextRef ← named s.contextNames context
    match map with
    | some map => do
      let mapRef ← named s.mapNames map
      s.parseIn ⟨mapRef, contextRef⟩ id text
    | none => (s.addMap .empty).parseIn ⟨s.maps.length, contextRef⟩ id text
  | .evaluate id path draws => do
    let f ← s.formulaAt id path
    let x ← (f.evaluate (s.environment draws)).result
    .ok (s, .value x)
  | .setVariable id path name value => do
    let f ← s.formulaAt id path
    let ref := f.scope.mapping
    let m ← (s.mapping ref).setNumber name value
    .ok (s.setMap ref m, .agreed)
  | .removeVariable id path name => do
    let f ← s.formulaAt id path
    let ref := f.scope.mapping
    let (m, old) := (s.mapping ref).remove name
    .ok (s.setMap ref m, .datum old)
  | .showVariables id path => do
    let f ← s.formulaAt id path
    .ok (s, .fields (s.mapping f.scope.mapping).entries)
  | .showFormula id path => do
    let f ← s.formulaAt id path
    .ok (s, .formula f)
  | .sharesScope id path => do
    let f ← s.formulaAt id path
    let top ← s.formulaAt id []
    .ok (s, .flags (f.scope.mapping = top.scope.mapping) (f.scope.context = top.scope.context))
  | .copyContext source target => do
    let ref ← named s.contextNames source
    .ok (s.addContext target (s.context ref), .done)
  | .createStandard target => .ok (s.addContext target Standard.context, .done)
  | .createEmpty target name => .ok (s.addContext target ⟨name, {}, {}⟩, .done)
  | .contextName context => do
    let ref ← named s.contextNames context
    .ok (s, .text (s.context ref).name)
  | .addFunction context name function arity =>
    s.changeFunctions context fun t => t.add name function arity
  | .aliasFunction context newName name =>
    s.changeFunctions context fun t => t.addAlias newName name
  | .removeFunction context name arity =>
    s.changeFunctions context fun t => .ok (t.remove name arity)
  | .hasFunction context name arity => do
    let ref ← named s.contextNames context
    let t := (s.context ref).functions
    .ok (s, .flags (t.contains name) (t.lookup name arity).isSome)
  | .functionArities context name => do
    let ref ← named s.contextNames context
    .ok (s, .counts ((s.context ref).functions.arities name))
  | .functionNames context => do
    let ref ← named s.contextNames context
    .ok (s, .texts (s.context ref).functions.names)
  | .lookupConstant context name => do
    let ref ← named s.contextNames context
    .ok (s, .constant ((s.context ref).constants.lookup name))
  | .removeConstant context name => do
    let ref ← named s.contextNames context
    let c := s.context ref
    .ok (s.setContext ref { c with constants := c.constants.remove name }, .done)
  | .constantNames context => do
    let ref ← named s.contextNames context
    .ok (s, .texts (s.context ref).constants.names)

def addConstants (s : Session) (context : String) (entries : Entries String Datum) :
    Session × Except Failure Answer :=
  match named s.contextNames context with
  | .error f => (s, .error f)
  | .ok ref =>
    let c := s.context ref
    let (constants, failure) := c.constants.addAll entries
    (s.setContext ref { c with constants := constants },
      match failure with
      | none => .ok .done
      | some f => .error f)

def changeMap (s : Session) (map : String) (request : VariableMap.Request) :
    Session × Except Failure Answer :=
  match named s.mapNames map with
  | .error f => (s, .error f)
  | .ok ref =>
    let reply := (s.mapping ref).answer request
    (s.setMap ref reply.map, reply.answer.map .datum)

def step (s : Session) : Request → Session × Except Failure Answer
  | .command c => match s.answer c with
    | .ok (s, a) => (s, .ok a)
    | .error f => (s, .error f)
  | .addConstants context entries => s.addConstants context entries
  | .changeMap map request => s.changeMap map request

def answers (s : Session) : List Request → List (Except Failure Answer)
  | [] => []
  | request :: rest =>
    let (s, a) := s.step request
    a :: s.answers rest

end Session

end Calculator
