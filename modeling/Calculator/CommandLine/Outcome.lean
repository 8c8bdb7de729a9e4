import Calculator.CommandLine.Help
import Calculator.CommandLine.Request
import Calculator.ContextFile
import Calculator.Evaluation
import Calculator.Log.Event
import Calculator.Log.Logger
import Calculator.Parsing
/-!
Outcomes: what a calculation writes and the code that it ends with. The context is loaded, the
expression is read and then evaluated; the first of these that fails is reported. A breakdown, which
does not concern the expression, leaves no outcome.
-/
namespace Calculator.CommandLine

/-- What goes to the error stream: log records, and notices that are written in any case. -/
inductive Diagnostic where
  | record (r : Log.Record)
  | notice (text : String)

inductive Breakdown where
  | level (e : Log.UnknownLevel)
  | logFile (e : FileError)
  | hollowAssignment
  | failure (f : Failure)

def Breakdown.message : Breakdown → String
  | .level e => e.message
  | .logFile e => e.message
  | .hollowAssignment => "not enough values to unpack (expected 2, got 0)"
  | .failure f => f.message

structure Outcome where
  code : Nat
  output : List String := []
  diagnostics : List Diagnostic := []
  setup : Option Log.Setup := none

namespace Outcome

def records (o : Outcome) : List Log.Record :=
  o.diagnostics.filterMap fun
    | .record r => if o.setup.any (·.admits r) then some r else none
    | .notice _ => none

def errorLines (o : Outcome) (line : Log.Setup → Log.Record → String) : List String :=
  o.diagnostics.filterMap fun
    | .record r => (o.setup.filter (·.admits r)).map (line · r)
    | .notice text => some text

end Outcome

/-- The files as far as a calculation needs them: how they are read, and how after a log file has
been opened. -/
structure FileAccess where
  read : FileReader
  openLog : String → Except FileError FileReader

def FileAccess.ofFiles (files : Files) : FileAccess where
  read := files.read
  openLog path := (files.openToAppend path).map Files.read

namespace Request

/-- The file of the context: the one of the arguments, or else the one of the settings, where an
empty name stands for none. -/
def contextPath (r : Request) (s : Settings) : Option String :=
  match r.context with
  | some path => some (Path.ofText path).text
  | none => s.contextFile.filter fun path => !path.isEmpty

def mapping (r : Request) : VariableMap :=
  r.assignments.foldl (fun m (name, x) => m.set name (.number x)) .empty

def environment (r : Request) (context : Context) (draws : Draws) : Environment :=
  ⟨fun _ => r.mapping, fun _ => context, draws⟩

def treeLines (r : Request) (formula : Formula) : List String :=
  if r.tree then formula.elements.map Element.describe else []

def failed (r : Request) (events : List Event) (output : List String) (f : Failure) :
    Except Breakdown Outcome :=
  match f.report? with
  | none => .error (.failure f)
  | some report => .ok {
      code := 1
      output := output
      diagnostics := events.map (.record ·.record) ++ [.record (report.record r.expression)] ++
        if r.quiet then [] else [.notice ("error: " ++ report.text)] }

def evaluate (r : Request) (context : Context) (draws : Draws) (events : List Event)
    (formula : Formula) : Except Breakdown Outcome :=
  let run := formula.evaluate (r.environment context draws)
  match run.result with
  | .error f => r.failed (events ++ run.events) (r.treeLines formula) f
  | .ok x => .ok {
      code := 0
      output := r.treeLines formula ++ [Decimal.text x]
      diagnostics := (events ++ run.events).map (.record ·.record) }

def calculate (r : Request) (context : Context) (draws : Draws) : Except Breakdown Outcome :=
  let run := Formula.parse ⟨0, 0⟩ r.expression
  match run.result with
  | .error f => r.failed run.events [] f
  | .ok formula =>
    if r.hollow then .error .hollowAssignment else r.evaluate context draws run.events formula

def perform (r : Request) (base : Context) (draws : Draws) (read : FileReader) (s : Settings) :
    Except Breakdown Outcome :=
  let context := match r.contextPath s with
    | some path => base.ofFile Definition.ofYaml read path
    | none => .ok base
  match context with
  | .error f => r.failed [] [] f
  | .ok context => r.calculate context draws

end Request

/-- Sets up the log, and gives the way in which files are read afterwards. -/
def prepareLog (access : FileAccess) (s : Settings) : Except Breakdown (Log.Setup × FileReader) :=
  match Log.Setup.ofSettings s with
  | .error e => .error (.level e)
  | .ok setup => match setup.file with
    | none => .ok (setup, access.read)
    | some path => match access.openLog path with
      | .error e => .error (.logFile e)
      | .ok read => .ok (setup, read)

def outcome (base : Context) (draws : Draws) (access : FileAccess) (s : Settings)
    (arguments : List String) : Except Breakdown Outcome :=
  match Request.ofArguments arguments with
  | .error .help => .ok ⟨0, help, [], none⟩
  | .error (.misuse m) =>
    .ok ⟨2, [], (usage ++ ["mathexpr: error: " ++ m.message]).map .notice, none⟩
  | .ok r => do
    let (setup, read) ← prepareLog access s
    let o ← r.perform base draws read s
    .ok { o with setup := some setup }

end Calculator.CommandLine
