import Calculator.Run
import Calculator.Token
/-!
Reading formulas. Tokens are folded into a stack of frames, one for every parenthesis that is still
open; each element is checked against the one in front of it when it is appended, and a name is held
back until the next token tells whether it is called.
-/
namespace Calculator

/-- The elements between an opening parenthesis, at `position`, and what has been read so far; the
name in front of the parenthesis if there is one. -/
structure Frame where
  position : Nat
  callee : Option String := none
  elements : List Element := []

/-- The open frames, the innermost one first and apart, and the name that is held back. -/
structure Reading where
  top : Frame := ⟨0, none, []⟩
  below : List Frame := []
  held : Option Token := none

abbrev Attempt := Except Failure

def refuse {α : Type} (fault : ParseFault) (position : Nat) : Attempt α :=
  .error (.parse fault position)

namespace Frame

def last? (f : Frame) : Option Element := f.elements.getLast?

def check (f : Frame) (e : Element) (t : Token) : Attempt Unit :=
  match f.last? with
  | none => if e.canStart then .ok () else refuse (.cannotStart e t.text) t.position
  | some previous =>
    if previous.allows e then .ok () else refuse (.unexpected previous t.text) t.position

def append (f : Frame) (e : Element) : Frame := { f with elements := f.elements ++ [e] }

def push (f : Frame) (e : Element) (t : Token) : Attempt Frame := do
  f.check e t
  .ok (f.append e)

def checkComplete (f : Frame) (position : Nat) : Attempt Unit :=
  match f.last? with
  | none => .ok ()
  | some last => if last.isComplete then .ok () else refuse (.incomplete last) position

/-- A group that follows an operand multiplies. -/
def beforeGroup (f : Frame) : Frame :=
  match f.last? with
  | some previous => if previous.isOperand then f.append (.operator .multiply) else f
  | none => f

end Frame

def splitAtCommas : List Element → List (List Element)
  | [] => [[]]
  | .comma :: rest => [] :: splitAtCommas rest
  | e :: rest =>
    match splitAtCommas rest with
    | part :: parts => (e :: part) :: parts
    | [] => [[e]]

def Frame.close (f : Frame) (scope : Scope) (t : Token) : Attempt Element := do
  f.checkComplete t.position
  match f.callee with
  | some name => .ok (.callOf name ((splitAtCommas f.elements).map (.mk scope)))
  | none =>
    if f.elements.isEmpty then refuse .emptyGroup t.position
    else .ok (.group (.mk scope f.elements))

namespace Reading

/-- An opening parenthesis begins the arguments of the name held back, or else a group. -/
def opening (r : Reading) (scope : Scope) (t : Token) : Attempt Reading :=
  match r.held with
  | some name => do
    r.top.check (.callOf name.text []) name
    .ok ⟨⟨t.position, some name.text, []⟩, r.top :: r.below, none⟩
  | none => do
    r.top.check (.group (.mk scope [])) t
    .ok ⟨⟨t.position, none, []⟩, r.top.beforeGroup :: r.below, none⟩

/-- A name that no parenthesis follows is a variable. -/
def release (r : Reading) (t : Token) : Attempt Reading :=
  match r.held with
  | none => .ok r
  | some name =>
    if t.kind = .number then refuse (.variableBeforeNumber t.text) t.position
    else do
      let top ← r.top.push (.variable name.text) name
      .ok ⟨top, r.below, none⟩

def pushOnTop (r : Reading) (e : Element) (t : Token) : Attempt Reading := do
  let top ← r.top.push e t
  .ok { r with top := top }

def closing (r : Reading) (scope : Scope) (t : Token) : Attempt Reading :=
  match r.below with
  | [] => refuse .illegalClosing t.position
  | outer :: below => do
    let e ← r.top.close scope t
    .ok ⟨outer.append e, below, r.held⟩

def number (t : Token) : Attempt Element :=
  match Decimal.readChars? t.lexeme with
  | some value => .ok (.number value)
  | none => .error (.conversion (.notDecimal t.text))

def operator (t : Token) : Attempt Element :=
  match Operator.ofLexeme? t.lexeme with
  | some op => .ok (.operator op)
  | none => .error (.unknownSymbol t.text)

/-- A token that is neither a name nor an opening parenthesis, with no name held back. -/
def plain (r : Reading) (scope : Scope) (t : Token) : Attempt Reading :=
  match t.kind with
  | .number => do r.pushOnTop (← number t) t
  | .operator => do r.pushOnTop (← operator t) t
  | .comma =>
    if r.top.callee.isNone then refuse .strayComma t.position else r.pushOnTop .comma t
  | .closing => r.closing scope t
  | _ => .ok r

def step (scope : Scope) (r : Reading) (t : Token) : Attempt Reading :=
  match t.kind with
  | .identifier =>
    if r.held.isSome then refuse (.unexpectedName t.text) t.position
    else .ok { r with held := some t }
  | .opening => r.opening scope t
  | _ => do (← r.release t).plain scope t

def finish (r : Reading) (length : Nat) : Attempt (List Element) :=
  if !r.below.isEmpty then refuse .unclosed r.top.position
  else if r.top.elements.isEmpty then refuse .emptyText 0
  else do
    r.top.checkComplete length
    .ok r.top.elements

end Reading

def ScanError.toFailure : ScanError → Failure
  | .malformedNumber run position => .parse (.malformedNumber (String.ofList run)) position
  | .invalidCharacter c position => .parse (.invalidCharacter c) position

def scanText (text : List Char) : Attempt (List Token) :=
  match scan text with
  | .ok tokens => .ok tokens
  | .error e => .error e.toFailure

/-- The elements of a text; a blank text has none. -/
def readElements (scope : Scope) (text : List Char) : Attempt (List Element) :=
  if text.all Text.isBlank then .ok []
  else do
    let tokens ← scanText text
    let r ← tokens.foldlM (Reading.step scope) {}
    r.finish text.length

namespace Formula

def ofText (scope : Scope) (text : String) : Attempt Formula := do
  .ok (.mk scope (← readElements scope text.toList))

/-- As `ofText`, telling of a text that is not blank. -/
def parse (scope : Scope) (text : String) : Run Formula :=
  match ofText scope text with
  | .error f => .fail f
  | .ok formula =>
    if formula.isEmpty then pure formula
    else do
      Run.tell (.parsed text formula.elements.length)
      pure formula

theorem parse_result (scope : Scope) (text : String) :
    (parse scope text).result = ofText scope text := by
  rw [parse]
  cases ofText scope text with
  | error failure => rfl
  | ok f =>
    simp only
    split <;> rfl

end Formula

end Calculator
