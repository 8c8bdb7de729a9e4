import Calculator.Context
import Calculator.Files
import Calculator.Text.LowerCase
import Calculator.Yaml.Document
/-!
Context files. A file gives a name, constants and aliases of functions; it is checked against this
form as a whole, and then extends a context, the aliases one after the other.
-/
namespace Calculator

structure Definition where
  name : String
  constants : Entries String Float
  aliases : Entries String String

namespace Definition

open Yaml (Value)

def textOf : Value → Except String String
  | .text s => .ok s
  | .bytes bs => match String.fromUTF8? ⟨bs.toArray⟩ with
    | some s => .ok s
    | none => .error "string_unicode"
  | _ => .error "string_type"

/-- A decimal of ASCII characters without underscores. -/
def plainDecimal? (cs : List Char) : Option Float :=
  if cs.all fun c => c.toNat < 0x80 && c ≠ '_' then Decimal.readChars? cs else none

/-- Whether underscores stand only between other characters, and never two of them together. -/
def underscoresInside : List Char → Bool
  | [] => true
  | ['_'] => false
  | '_' :: '_' :: _ => false
  | _ :: rest => underscoresInside rest

/-- A decimal with blanks around it or with underscores in it, but not with both. -/
def decimal? (s : String) : Option Float :=
  let cs := s.toList
  match plainDecimal? (Text.trimBy Decimal.isMargin cs) with
  | some x => some x
  | none =>
    if cs.head? ≠ some '_' && underscoresInside cs && !cs.any Text.isBlank then
      plainDecimal? (cs.filter (· ≠ '_'))
    else none

def numberOf : Value → Except String Float
  | .truth b => .ok (if b then 1.0 else 0.0)
  | .integer i => match Double.ofInt? i with
    | some x => .ok x
    | none => .error "float_type"
  | .number x => .ok x
  | .text s => match decimal? s with
    | some x => .ok x
    | none => .error "float_parsing"
  | .bytes bs => match (String.fromUTF8? ⟨bs.toArray⟩).bind decimal? with
    | some x => .ok x
    | none => .error "float_parsing"
  | _ => .error "float_type"

/-- What a field gives, or all that is wrong with it. -/
abbrev Checked (α : Type) := Except (List SchemaError) α

def keyShown : Value → String
  | .text s => s
  | v => v.shown

def errorsOf {α : Type} (location : List String) : Except String α → List SchemaError
  | .ok _ => []
  | .error reason => [⟨location, reason⟩]

/-- The entries of a mapping with texts as keys; all wrong keys and values are told, in order. -/
def entriesOf {α : Type} (field : String) (check : Value → Except String α) :
    List (Value × Value) → Checked (Entries String α)
  | [] => .ok []
  | (key, value) :: rest =>
    let k := textOf key
    let v := check value
    let name := keyShown key
    match k, v, entriesOf field check rest with
    | .ok k, .ok v, .ok entries => .ok ((k, v) :: entries)
    | k, v, r =>
      .error (errorsOf [field, name, "[key]"] k ++ errorsOf [field, name] v ++
        (match r with
          | .ok _ => []
          | .error errors => errors))

/-- A field that holds a mapping; it may be absent. -/
def mappingOf {α : Type} (field : String) (check : Value → Except String α) :
    Option Value → Checked (Entries String α)
  | none => .ok []
  | some (.mapping entries) => entriesOf field check entries
  | some _ => .error [⟨[field], "dict_type"⟩]

def nameOf : Option Value → Checked String
  | none => .error [⟨["name"], "missing"⟩]
  | some v => match textOf v with
    | .ok s => .ok s
    | .error reason => .error [⟨["name"], reason⟩]

def errors {α : Type} : Checked α → List SchemaError
  | .ok _ => []
  | .error es => es

def fieldOf (entries : List (Value × Value)) (name : String) : Option Value :=
  (entries.find? fun (key, _) => key.sameKey (.text name)).map Prod.snd

def ofValue : Value → Checked Definition
  | .mapping entries =>
    let name := nameOf (fieldOf entries "name")
    let constants := mappingOf "constants" numberOf (fieldOf entries "constants")
    let aliases := mappingOf "aliases" textOf (fieldOf entries "aliases")
    match name, constants, aliases with
    | .ok name, .ok constants, .ok aliases =>
      .ok ⟨name, Entries.putAll [] constants, Entries.putAll [] aliases⟩
    | name, constants, aliases => .error (errors name ++ errors constants ++ errors aliases)
  | _ => .error [⟨[], "model_type"⟩]

def addAliases (table : FunctionTable) : Entries String String → Except Failure FunctionTable
  | [] => .ok table
  | (newName, name) :: rest =>
    match table.addAlias newName name with
    | .ok table => addAliases table rest
    | .error _ => .error (.context (.unknownAlias newName name))

def extend (d : Definition) (base : Context) : Except Failure Context := do
  let functions ← addAliases base.functions d.aliases
  let constants := d.constants.foldl (fun t (name, value) => t.put name value) base.constants
  .ok ⟨d.name, functions, constants⟩

end Definition

/-- Line feeds in place of carriage returns and of carriage returns with line feeds. -/
def universalNewlines : List Char → List Char
  | '\r' :: '\n' :: rest => '\n' :: universalNewlines rest
  | '\r' :: rest => '\n' :: universalNewlines rest
  | c :: rest => c :: universalNewlines rest
  | [] => []

/-- How the text of the file at a path is read as a definition. -/
abbrev DefinitionReader := String → String → Except Failure Definition

def Definition.ofYaml : DefinitionReader := fun path text =>
  match Yaml.Value.ofYaml (String.ofList (universalNewlines text.toList)) with
  | .error (.malformed what) => .error (.context (.unreadable path what))
  | .error fault => .error (.yaml fault)
  | .ok value =>
    match ofValue value with
    | .error errors => .error (.context (.schema path errors))
    | .ok definition => .ok definition

def Context.ofFile (base : Context) (define : DefinitionReader) (read : FileReader)
    (path : String) : Except Failure Context :=
  match read path with
  | .ok text => (define path text).bind fun d => d.extend base
  | .error .nullCharacter => .error .nullInPath
  | .error fault => .error (.context (.unreadable path (fault.message path)))

end Calculator
