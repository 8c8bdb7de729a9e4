import Calculator.Datum
/-!
Log records and their two forms, JSON in one line and plain text. The extra fields of a record take
the places of its own fields of the same name, all others follow.
-/
namespace Calculator.Log

def levelNames : Entries Int String := [
  (50, "CRITICAL"), (40, "ERROR"), (30, "WARNING"), (20, "INFO"), (10, "DEBUG"), (0, "NOTSET")]

def levelName (level : Int) : String :=
  (Entries.get? levelNames level).getD ("Level " ++ toString level)

def exceptionText (kind text : String) : String :=
  if text.isEmpty then kind else kind ++ ": " ++ text

structure Record where
  logger : String
  level : Int
  message : String
  unit : String
  function : Option String := none
  line : Int := 0
  exception : Option String := none
  extras : Entries String Datum := []

namespace Record

/-- The fields that every record has; that of an exception stands only if there is one. -/
def ownFields (r : Record) (timestamp : String) : Entries String Datum := [
    ("timestamp", .text timestamp),
    ("level", .text (levelName r.level)),
    ("logger", .text r.logger),
    ("message", .text r.message),
    ("module", .text r.unit),
    ("function", (r.function.map Datum.text).getD .null),
    ("line", .int r.line)] ++
  match r.exception with
  | none => []
  | some text => [("exception", .text text)]

def fields (r : Record) (timestamp : String) : Entries String Datum :=
  Entries.putAll (r.ownFields timestamp) r.extras

def structured (r : Record) (timestamp : String) : String :=
  (Datum.record (r.fields timestamp)).json

def plain (r : Record) (time : String) : String :=
  String.intercalate " - " [time, r.logger, levelName r.level, r.message]

end Record

/-- The unit that a file path names: its last part without the last extension. -/
def unitOfPath (path : String) : String :=
  let name := (path.toList.reverse.takeWhile (· ≠ '/')).reverse
  let dots := name.takeWhile (· = '.')
  let body := name.drop dots.length
  let kept := (body.reverse.dropWhile (· ≠ '.')).drop 1
  String.ofList (dots ++ if body.contains '.' then kept.reverse else body)

end Calculator.Log
