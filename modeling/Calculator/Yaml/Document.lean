import Calculator.Yaml.Node
import Calculator.Yaml.Value
/-!
The value of a YAML document. Every node becomes a value by its tag, or by its text where it has
none; the entries that are merged into a mapping come in front of its own. Of several faults the one
in the outermost collection counts, and of those in one collection the first.
-/
namespace Calculator.Yaml

def Node.meaning? : Node → Option Meaning
  | .scalar none text plain => some (if plain then .ofPlain text else .text)
  | .sequence none _ => some .sequence
  | .mapping none _ => some .mapping
  | .scalar (some tag) _ _ => Meaning.ofTag? tag
  | .sequence (some tag) _ => Meaning.ofTag? tag
  | .mapping (some tag) _ => Meaning.ofTag? tag
  | .cycle isMapping => some (if isMapping then .mapping else .sequence)

def isMergeKey (n : Node) : Bool := n.meaning? = some .merge

def isDefaultKey (n : Node) : Bool := n.meaning? = some .default

/-- The text of a scalar, or of the default entry of a mapping. -/
def Node.scalarText? : Node → Option String
  | .scalar _ text _ => some text
  | .mapping _ entries => defaultText? entries
  | _ => none
where
  /-- The text of the first entry whose key is the default one. -/
  defaultText? : List (Node × Node) → Option String
    | [] => none
    | (key, value) :: rest =>
      if isDefaultKey key then value.scalarText? else defaultText? rest

def Meaning.isCollection : Meaning → Bool
  | .orderedMap | .pairs | .set | .sequence | .mapping => true
  | _ => false

structure NestedFault where
  depth : Nat
  fault : Fault

/-- The outer one of two faults, the first one if neither lies deeper. -/
def NestedFault.outer (f g : NestedFault) : NestedFault := if g.depth < f.depth then g else f

abbrev Built := Except NestedFault

namespace Built

def ofValued {α : Type} (depth : Nat) (v : Valued α) : Built α := v.mapError (⟨depth, ·⟩)

def refuse {α : Type} (depth : Nat) (what : String) : Built α := .error ⟨depth, .malformed what⟩

def collect {α β : Type} (make : α → β) (parts : Built α) : Built β :=
  (parts.map make).mapError fun f => { f with depth := f.depth + 1 }

def both {α β : Type} : Built α → Built β → Built (α × β)
  | .ok x, .ok y => .ok (x, y)
  | .error f, .error g => .error (f.outer g)
  | .error f, .ok _ => .error f
  | .ok _, .error g => .error g

def all {α : Type} : List (Built α) → Built (List α)
  | [] => .ok []
  | b :: rest => (both b (all rest)).map fun (x, xs) => x :: xs

end Built

def Meaning.built (m : Meaning) (text : Option String) : Built Value :=
  let depth := if m.isCollection then 1 else 0
  match text with
  | some text => .ofValued depth (Value.ofText m text)
  | none => .refuse depth "a collection has another tag"

/-- The value of a key, whose own value is given. Collections are no keys, whatever they hold; the
default key stands for its text. -/
def Node.keyOf (key : Node) (value : Built Value) : Built Value :=
  if isDefaultKey key then Meaning.built .text key.scalarText?
  else match value with
    | .ok v => if v.isKey then .ok v else .refuse 0 "a collection is used as a key"
    | .error f => if f.depth = 0 then .error f else .refuse 0 "a collection is used as a key"

mutual
/-- Whether only mappings and lists of mappings are merged into a mapping, and so on within them. -/
def soundMerges : List (Node × Node) → Bool
  | [] => true
  | (key, value) :: rest => (!isMergeKey key || value.mayMerge) && soundMerges rest

def Node.mayMerge : Node → Bool
  | .mapping _ entries => soundMerges entries
  | .sequence _ items => mayMergeAll items
  | .cycle isMapping => isMapping
  | .scalar _ _ _ => false

def mayMergeAll : List Node → Bool
  | [] => true
  | .mapping _ entries :: rest => soundMerges entries && mayMergeAll rest
  | .cycle isMapping :: rest => isMapping && mayMergeAll rest
  | _ :: _ => false
end

structure Flattened where
  merged : List (Built (Value × Value))
  own : List (Built (Value × Value))

def Flattened.all (f : Flattened) : List (Built (Value × Value)) := f.merged ++ f.own

mutual
def Node.value : Node → Built Value
  | .cycle isMapping => .ok (if isMapping then .mapping [] else .list [])
  | .scalar tag text plain =>
    match (Node.scalar tag text plain).meaning? with
    | none => .refuse 0 "a tag is not known"
    | some meaning => meaning.built (some text)
  | .sequence tag items =>
    match (Node.sequence tag items).meaning? with
    | none => .refuse 0 "a tag is not known"
    | some .sequence => Built.collect Value.list (Built.all (itemValues items))
    | some .orderedMap | some .pairs => Built.collect Value.list (Built.all (pairValues items))
    | some meaning => meaning.built none
  | .mapping tag entries =>
    let parts : Built (List (Value × Value)) :=
      if soundMerges entries then Built.all (flatten entries).all
      else .refuse 0 "a mapping is expected for a merge"
    match (Node.mapping tag entries).meaning? with
    | none => .refuse 0 "a tag is not known"
    | some .mapping => Built.collect Value.ofEntries parts
    | some .set => Built.collect (fun _ => Value.set) parts
    | some meaning => meaning.built (Node.mapping tag entries).scalarText?

def itemValues : List Node → List (Built Value)
  | [] => []
  | n :: rest => n.value :: itemValues rest

/-- The items of a list of pairs, which are mappings of one entry each. -/
def pairValues : List Node → List (Built Value)
  | [] => []
  | .mapping _ [(key, value)] :: rest =>
    (Built.both key.value value.value).map (fun (k, v) => .list [k, v]) :: pairValues rest
  | _ :: _ => [.refuse 0 "a mapping of one entry is expected"]

def flatten : List (Node × Node) → Flattened
  | [] => ⟨[], []⟩
  | (key, value) :: rest =>
    let f := flatten rest
    if isMergeKey key then ⟨mergedEntries value ++ f.merged, f.own⟩
    else ⟨f.merged, Built.both (key.keyOf key.value) value.value :: f.own⟩

/-- The entries that a merge brings; of a list of mappings the first one counts most. -/
def mergedEntries : Node → List (Built (Value × Value))
  | .mapping _ entries => (flatten entries).all
  | .sequence _ items => mergedItems items
  | _ => []

def mergedItems : List Node → List (Built (Value × Value))
  | [] => []
  | .mapping _ entries :: rest => mergedItems rest ++ (flatten entries).all
  | _ :: rest => mergedItems rest
end

/-- The value of the single document of a text; without a document it is null. -/
def Value.ofYaml (text : String) : Valued Value := do
  let tokens ← Token.scan text.toList
  match ← Node.ofTokens tokens with
  | none => .ok .null
  | some n => n.value.mapError (·.fault)

end Calculator.Yaml
