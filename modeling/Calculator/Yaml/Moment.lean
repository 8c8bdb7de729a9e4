import Calculator.Yaml.Cursor
/-!
Moments: dates, and dates with a time of day and a time zone, checked against the calendar.
-/
namespace Calculator.Yaml

structure MomentText where
  year : List Char
  month : List Char
  day : List Char
  time : Option (List Char × List Char × List Char × List Char) := none
  zone : Option (Option (Bool × List Char × List Char)) := none

def digits? (least most : Nat) (cs : List Char) : Option (List Char × List Char) :=
  let run := (cs.take most).takeWhile Char.isDigit
  if least ≤ run.length then some (run, cs.drop run.length) else none

def literal? (c : Char) : List Char → Option (List Char)
  | d :: rest => if c = d then some rest else none
  | [] => none

/-- The time zone at the end of a moment: none, the universal one, or an offset. -/
def zone? (cs : List Char) : Option (Option (Option (Bool × List Char × List Char))) :=
  match cs.dropWhile fun c => c = ' ' || c = '\t' with
  | [] => if cs.isEmpty then some none else none
  | ['Z'] => some (some none)
  | sign :: rest =>
    if sign = '-' || sign = '+' then do
      let (hour, rest) ← digits? 1 2 rest
      match rest with
      | [] => some (some (some (sign = '-', hour, [])))
      | rest => do
        let rest ← literal? ':' rest
        let (minute, rest) ← digits? 2 2 rest
        if rest.isEmpty then some (some (some (sign = '-', hour, minute))) else none
    else none

def momentText? (cs : List Char) : Option MomentText := do
  let (year, rest) ← digits? 4 4 cs
  let rest ← literal? '-' rest
  let (month, rest) ← digits? 1 2 rest
  let rest ← literal? '-' rest
  let (day, rest) ← digits? 1 2 rest
  match rest with
  | [] => some ⟨year, month, day, none, none⟩
  | c :: after =>
    let blanks := rest.dropWhile fun c => c = ' ' || c = '\t'
    let rest := if c = 'T' || c = 't' then after else blanks
    if c = 'T' || c = 't' || c = ' ' || c = '\t' then do
      let (hour, rest) ← digits? 1 2 rest
      let rest ← literal? ':' rest
      let (minute, rest) ← digits? 2 2 rest
      let rest ← literal? ':' rest
      let (second, rest) ← digits? 2 2 rest
      let (fraction, rest) := match rest with
        | '.' :: rest => (rest.takeWhile Char.isDigit, rest.dropWhile Char.isDigit)
        | rest => ([], rest)
      let zone ← zone? rest
      some ⟨year, month, day, some (hour, minute, second, fraction), zone⟩
    else none

/-- A moment that needs no tag; without a time of day, month and day have two digits. -/
def isMoment (cs : List Char) : Bool :=
  (momentText? cs).any fun m => m.time.isSome || m.month.length = 2 && m.day.length = 2

def dropFinalBreak (cs : List Char) : List Char :=
  if cs.getLast? = some '\n' then cs.dropLast else cs

def decimalNat (cs : List Char) : Nat := cs.foldl (fun n c => 10 * n + (c.toNat - 48)) 0

def isLeap (year : Nat) : Bool := year % 4 = 0 && (year % 100 ≠ 0 || year % 400 = 0)

def daysIn (year month : Nat) : Nat :=
  if month = 2 then (if isLeap year then 29 else 28)
  else if [4, 6, 9, 11].contains month then 30 else 31

def checkDate (year month day : Nat) : Except Fault Unit :=
  if year = 0 then .error (.momentRange "year 0 is out of range")
  else if month = 0 || 12 < month then .error (.momentRange "month must be in 1..12")
  else if day = 0 || daysIn year month < day then
    .error (.momentRange "day is out of range for month")
  else .ok ()

def checkTime (hour minute second : Nat) : Except Fault Unit :=
  if 23 < hour then .error (.momentRange "hour must be in 0..23")
  else if 59 < minute then .error (.momentRange "minute must be in 0..59")
  else if 59 < second then .error (.momentRange "second must be in 0..59")
  else .ok ()

def spanShown (seconds : Int) : String :=
  let days := Int.fdiv seconds 86400
  let rest := Int.fmod seconds 86400
  let parts := (if days = 0 then [] else ["days=" ++ toString days]) ++
    (if rest = 0 then [] else ["seconds=" ++ toString rest])
  "datetime.timedelta(" ++ (if parts.isEmpty then "0" else String.intercalate ", " parts) ++ ")"

/-- The offset of a time zone, which is less than a day. -/
def zoneShown (negative : Bool) (hour minute : Nat) : Except Fault String :=
  let size : Int := (hour * 3600 + minute * 60 : Nat)
  let seconds := if negative then -size else size
  if 86400 ≤ size then
    .error (.momentRange ("offset must be a timedelta strictly between " ++
      "-timedelta(hours=24) and timedelta(hours=24), not " ++ spanShown seconds ++ "."))
  else if size = 0 then .ok "datetime.timezone.utc"
  else .ok ("datetime.timezone(" ++ spanShown seconds ++ ")")

def arguments (ns : List Nat) : List String := ns.map fun n => toString n

/-- The moment that a text writes, as a call that gives its parts; a line break may follow it. -/
def momentShown (text : String) : Except Fault String :=
  match momentText? (dropFinalBreak text.toList) with
  | none => .error .momentWord
  | some m =>
    let year := decimalNat m.year
    let month := decimalNat m.month
    let day := decimalNat m.day
    match m.time with
    | none => do
      checkDate year month day
      .ok ("datetime.date(" ++ String.intercalate ", " (arguments [year, month, day]) ++ ")")
    | some (hour, minute, second, fraction) => do
      let zone ← match m.zone with
        | none => .ok []
        | some none => .ok ["tzinfo=datetime.timezone.utc"]
        | some (some (negative, hour, minute)) =>
          (zoneShown negative (decimalNat hour) (decimalNat minute)).map fun z => ["tzinfo=" ++ z]
      checkDate year month day
      checkTime (decimalNat hour) (decimalNat minute) (decimalNat second)
      let micro := decimalNat ((fraction ++ List.replicate 6 '0').take 6)
      let seconds := if micro ≠ 0 then [decimalNat second, micro]
        else if decimalNat second ≠ 0 then [decimalNat second] else []
      let whole := [year, month, day, decimalNat hour, decimalNat minute] ++ seconds
      .ok ("datetime.datetime(" ++ String.intercalate ", " (arguments whole ++ zone) ++ ")")

end Calculator.Yaml
