import Calculator.CommandLine.Outcome
import Calculator.Log.Calendar
import Calculator.Standard
import Std.Time
/-!
The command line program: it reads the environment and the context file, and writes the outcome.
-/
namespace Calculator.CommandLine

def faultOf : IO.Error → FileFault
  | .permissionDenied .. => .denied
  | .inappropriateType .. => .isDirectory
  | .alreadyExists .. => .present
  | _ => .absent

def readText (path : String) : IO (Except FileFault String) := do
  try
    return .ok (← IO.FS.readFile path)
  catch e =>
    return .error (faultOf e)

def readVariables : IO Variables :=
  Settings.names.filterMapM fun name => do
    let value ← IO.getEnv (Settings.variableOf name)
    return value.map (Settings.variableOf name, ·)

def openLog (path : String) : IO (Except FileError Unit) := do
  try
    IO.FS.createDirAll (Path.ofText path).parent.text
    let _ ← IO.FS.Handle.mk path .append
    return .ok ()
  catch e =>
    return .error ⟨path, faultOf e⟩

def readFiles (s : Settings) (arguments : List String) : IO FileAccess := do
  match Request.ofArguments arguments with
  | .error _ => return .ofFiles {}
  | .ok r =>
    let opened ← match Log.Setup.ofSettings s with
      | .error _ => pure (.ok ())
      | .ok setup => match setup.file with
        | some path => openLog path
        | none => pure (.ok ())
    let text ← match r.contextPath s with
      | some path => readText path
      | none => pure (.error .absent)
    return ⟨fun _ => text, fun _ => opened.map fun _ => fun _ => text⟩

/-- Random numbers from 0 to below 1, each from a generator of its own. -/
def drawNumbers : IO Draws := do
  let seed ← IO.rand 0 (Double.twoTo 64 - 1)
  return fun place =>
    let generator := mkStdGen (hash (seed, place)).toNat
    Double.ofRatio false (randNat generator 0 (Double.twoTo 53 - 1)).1 (Double.twoTo 53)

def appendLines (path : String) (lines : List String) : IO Unit := do
  let file ← IO.FS.Handle.mk path .append
  for line in lines do
    file.putStrLn line

/-- The text of a record at the present time, which is universal in JSON and local in plain text. -/
def lineWriter : IO (Log.Setup → Log.Record → String) := do
  let now ← Std.Time.DateTime.now
  let seconds := now.timestamp.val.second.val
  let microseconds := now.timestamp.val.nano.val.toNat / 1000
  let localSeconds := seconds + now.timezone.offset.second.val
  return fun setup r =>
    setup.line (Log.timestampText seconds microseconds) (Log.momentText localSeconds) r

def write (o : Outcome) : IO Unit := do
  let line ← lineWriter
  if let some setup := o.setup then
    if let some path := setup.file then
      appendLines path (o.records.map (line setup))
  for text in o.output do
    IO.println text
  for text in o.errorLines line do
    IO.eprintln text

end Calculator.CommandLine

open Calculator CommandLine

def main (arguments : List String) : IO UInt32 := do
  let settings := Settings.ofVariables (← readVariables)
  let access ← readFiles settings arguments
  match outcome Standard.context (← drawNumbers) access settings arguments with
  | .ok o =>
    write o
    return o.code.toUInt32
  | .error b =>
    IO.eprintln b.message
    return 1
