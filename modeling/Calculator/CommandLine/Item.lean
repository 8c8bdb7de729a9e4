import Calculator.CommandLine.Misuse
import Calculator.Text.Blank
/-!
What a single argument of the command line is: an argument proper, a cluster of switches, the
separator, or something that looks like a switch but is none.
-/
namespace Calculator.CommandLine

/-- The last switch of a cluster, with its value if that stands in the same argument. -/
inductive ClusterEnd where
  | plain (s : Switch)
  | valued (s : Switch) (value : List Char)

/-- Switches in one argument: the last one, and those before it, which take no value. -/
structure Cluster where
  before : List Switch := []
  last : ClusterEnd

def Cluster.waiting? (c : Cluster) : Option Switch :=
  match c.last with
  | .plain s => if s.takesValue then some s else none
  | .valued _ _ => none

inductive Item where
  | argument (text : String)
  | separator
  | switches (cluster : Except Misuse Cluster)
  | unknown (text : String)

/-- A short switch and the text behind it, which is its value, or else begins with the letter of the
next switch. -/
def shortCluster (s : Switch) : List Char → Except Misuse Cluster
  | [] => if s.takesValue then .ok ⟨[], .valued s []⟩ else .error (.needlessValue s "")
  | letter :: rest =>
    if s.takesValue then .ok ⟨[], .valued s (letter :: rest)⟩
    else match Switch.ofLetter? letter, rest with
      | none, _ => .error (.needlessValue s (String.ofList (letter :: rest)))
      | some next, [] => .ok ⟨[s], .plain next⟩
      | some next, c :: more =>
        (shortCluster next (c :: more)).map fun c => ⟨s :: c.before, c.last⟩

def longCluster (s : Switch) (text : List Char) : Except Misuse Cluster :=
  if s.takesValue then .ok ⟨[], .valued s text⟩
  else .error (.needlessValue s (String.ofList text))

def splitAtSign : List Char → List Char × Option (List Char)
  | [] => ([], none)
  | '=' :: rest => ([], some rest)
  | c :: rest =>
    let (name, value) := splitAtSign rest
    (c :: name, value)

/-- A minus sign and digits with at most one point among them, at least one of them at the end; a
line feed may follow. -/
def isNegativeNumber : List Char → Bool
  | '-' :: rest =>
    let rest := if rest.getLast? = some '\n' then rest.dropLast else rest
    match rest.dropWhile Text.isDigit with
    | [] => !rest.isEmpty
    | '.' :: fraction => !fraction.isEmpty && fraction.all Text.isDigit
    | _ => false
  | _ => false

/-- What is no switch is an argument if it is a negative number or has a blank in it. -/
def unswitched (text : String) : Item :=
  if isNegativeNumber text.toList || text.toList.contains ' ' then .argument text
  else .unknown text

def spelledOut (s : Switch) (isLong : Bool) : Option (List Char) → Item
  | none => .switches (.ok ⟨[], .plain s⟩)
  | some text => .switches (if isLong then longCluster s text else shortCluster s text)

/-- A long switch may be cut short as long as only one begins that way; otherwise the candidates. -/
def abbreviation (text : String) (name : List Char) (value : Option (List Char)) :
    Except (List String) Item :=
  match Switch.abbreviated name with
  | [] => .ok (unswitched text)
  | [(_, s)] => .ok (spelledOut s true value)
  | candidates => .error (candidates.map Prod.fst)

def startsLong : List Char → Bool
  | '-' :: '-' :: _ => true
  | _ => false

/-- What an argument in front of the separator is, or the switches that it may be short for. -/
def itemOf (text : String) : Except (List String) Item :=
  let (name, value) := splitAtSign text.toList
  match Switch.ofSpelling? (String.ofList name) with
  | some s => .ok (spelledOut s (startsLong name) value)
  | none =>
    if startsLong text.toList then abbreviation text name value
    else match text.toList with
      | '-' :: letter :: rest => match Switch.ofLetter? letter with
        | some s => .ok (.switches (shortCluster s rest))
        | none => .ok (unswitched text)
      | _ => .ok (.argument text)

/-- What the arguments are; behind the separator they are all arguments proper. -/
def itemsOf : List String → Except Misuse (List Item)
  | [] => .ok []
  | text :: rest =>
    if text = "--" then .ok (.separator :: rest.map .argument)
    else match itemOf text with
      | .error candidates => .error (.ambiguous text candidates)
      | .ok item => (itemsOf rest).map (item :: ·)

end Calculator.CommandLine
