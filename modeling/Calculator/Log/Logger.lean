import Calculator.Log.Mappings
import Calculator.Log.Record
import Calculator.Settings
/-!
Loggers and how records are written. The fields given with a message take precedence over those of
its logger; a record is written if its level reaches the threshold.
-/
namespace Calculator.Log

/-- A level name of the settings that stands for no level but for a text. -/
structure UnknownLevel where
  text : String

def UnknownLevel.message (e : UnknownLevel) : String := "Unknown level: " ++ Text.quoted e.text

/-- Capitals as far as level names need them; two letters outside ASCII have capitals in it. -/
def capital (c : Char) : Char :=
  if c = 'ı' then 'I' else if c = 'ſ' then 'S' else c.toUpper

def namedLevels : Entries String Int := [
  ("CRITICAL", 50), ("FATAL", 50), ("ERROR", 40), ("WARNING", 30), ("WARN", 30), ("INFO", 20),
  ("DEBUG", 10), ("NOTSET", 0)]

/-- The least level written under a name in any case; a name of no level stands for `INFO`. -/
def leastLevel (name : String) : Except UnknownLevel Int :=
  let name := String.ofList (name.toList.map capital)
  if name = "BASIC_FORMAT" then .error ⟨"%(levelname)s:%(name)s:%(message)s"⟩
  else .ok ((Entries.get? namedLevels name).getD 20)

inductive LineForm where
  | structured
  | plain

structure Setup where
  threshold : Int
  form : LineForm
  file : Option String

namespace Setup

/-- An empty file name stands for none. -/
def ofSettings (s : Settings) : Except UnknownLevel Setup :=
  (leastLevel s.logLevel).map fun level => {
    threshold := level
    form := if s.logFormat = "json" then .structured else .plain
    file := s.logFile.filter fun path => !path.isEmpty }

/-- Levels that are not positive are never written. -/
def admits (s : Setup) (r : Record) : Bool := 0 < r.level && s.threshold ≤ r.level

def line (s : Setup) (timestamp time : String) (r : Record) : String :=
  match s.form with
  | .structured => r.structured timestamp
  | .plain => r.plain time

end Setup

/-- A logger refers to the mapping of its permanent fields. -/
structure Logger where
  name : String
  fields : Nat

inductive OptionFault where
  | noMapping (kind : String)
  | noAssignment (kind : String)

def OptionFault.message : OptionFault → String
  | .noMapping kind => Text.quoted kind ++ " object is not a mapping"
  | .noAssignment kind =>
    if kind = "list" then "list indices must be integers or slices, not str"
    else Text.quoted kind ++ " object does not support item assignment"

namespace Mappings

def fieldsOf (m : Mappings) : Value → Except OptionFault Fields
  | .mapping ref => .ok (m.fields ref)
  | .plain (.record fields) => .ok (.plain fields)
  | v => .error (.noMapping v.kindName)

/-- The mapping to be written into: the one given, or a new one if none is given. -/
def receiver (m : Mappings) : Option Value → Except OptionFault (Mappings × Nat)
  | none => .ok (m.add [])
  | some (.mapping ref) => .ok (m, ref)
  | some (.plain (.record fields)) => .ok (m.add (.plain fields))
  | some v => .error (.noAssignment v.kindName)

/-- The mapping of extra data that the options of a message carry. -/
def carried? (m : Mappings) (options : Fields) : Option Nat :=
  match Entries.get? options "extra" with
  | some (.mapping extra) => match Entries.get? (m.fields extra) "extra_data" with
    | some (.mapping merged) => some merged
    | _ => none
  | _ => none

/-- The extra fields of the record of a message, as they are when it is written. -/
def extras? (m : Mappings) (depth : Nat) (options : Fields) : Option (Entries String Datum) :=
  (m.carried? options).bind fun merged => m.readFields? depth (m.fields merged)

end Mappings

namespace Logger

/-- A logger with fields, none of which may be called as its name is. -/
def create? (m : Mappings) (name : String) (fields : Fields) : Option (Mappings × Logger) :=
  if (Entries.get? fields "name").isSome then none
  else
    let (m, ref) := m.add fields
    some (m, ⟨name, ref⟩)

/-- The nameless logger is the root of all others. -/
def label (l : Logger) : String := if l.name.isEmpty then "root" else l.name

/-- The fields of a message: those of the logger, with the given ones on top. -/
def merge (l : Logger) (m : Mappings) (given : Fields) : Fields :=
  Entries.putAll (m.fields l.fields) given

def record (l : Logger) (level : Int) (message unit function : String)
    (extras : Entries String Datum) : Record where
  logger := l.label
  level := level
  message := message
  unit := unit
  function := some function
  extras := extras

/-- What a message is given as its extra data. -/
def dataOf (given : Fields) : Value := (Entries.get? given "extra_data").getD (.plain (.record []))

/-- The options of a message: those given as extra data are merged with the fields of the logger and
move into the extra option, all others stay. The mapping given as the extra option is not copied but
written into. -/
def options (l : Logger) (m : Mappings) (given : Fields) :
    Mappings × Except OptionFault Fields :=
  match m.fieldsOf (dataOf given) with
  | .error fault => (m, .error fault)
  | .ok data => match m.receiver (Entries.get? given "extra") with
    | .error fault => (m, .error fault)
    | .ok (opened, extra) =>
      let (opened, merged) := opened.add (l.merge m data)
      (opened.put extra "extra_data" (.mapping merged),
        .ok (Entries.put (Entries.erase given "extra_data") "extra" (.mapping extra)))

/-- The store behind messages that are given options one after the other. -/
def run (l : Logger) (m : Mappings) (messages : List Fields) : Mappings :=
  messages.foldl (fun m given => (l.options m given).1) m

end Logger

end Calculator.Log
