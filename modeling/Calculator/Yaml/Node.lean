import Calculator.Yaml.Token
/-!
Nodes: the tree of a YAML document, with every alias replaced by the node it refers to.
-/
namespace Calculator.Yaml

/-- A scalar is `plain` if its text alone decides what it stands for. An alias to a collection that
it is part of has no tree; only the form of the collection is kept. -/
inductive Node where
  | scalar (tag : Option String) (text : String) (plain : Bool)
  | sequence (tag : Option String) (items : List Node)
  | mapping (tag : Option String) (entries : List (Node × Node))
  | cycle (isMapping : Bool)

namespace Node

/-- The tokens that are left, the nodes with a name, and the meaning of tag handles. -/
structure Source where
  tokens : List Token
  anchors : Entries String Node := []
  handles : Entries String String

abbrev Reader := StateT Source (Except Fault)

def refuse {α : Type} (what : String) : Reader α := throw (.malformed what)

def upcoming : Reader Token := do return (← get).tokens.headD .ending

def pass : Reader Unit := modify fun s => { s with tokens := s.tokens.drop 1 }

def accept (t : Token) : Reader Bool := do
  if (← upcoming) = t then
    pass
    return true
  else return false

def upcomingIs (ts : List Token) : Reader Bool := do return ts.contains (← upcoming)

def require (t : Token) (what : String) : Reader Unit := do
  if !(← accept t) then refuse what

def empty : Node := .scalar none "" true

/-- A tag with its handle replaced; one exclamation mark alone leaves it open. -/
def tagOf (handle : Option String) (suffix : String) : Reader (Option String) := do
  match handle with
  | none => return if suffix = "!" then none else some suffix
  | some handle =>
    match Entries.get? (← get).handles handle with
    | some start => return some (start ++ suffix)
    | none => refuse "a tag handle is not defined"

structure Properties where
  anchor : Option String := none
  tag : Option String := none
  tagged : Bool := false

def anchorProperty (p : Properties) : Reader Properties := do
  match ← upcoming with
  | .anchor name => do
    pass
    return { p with anchor := some name }
  | _ => return p

def tagProperty (p : Properties) : Reader Properties := do
  match ← upcoming with
  | .tag handle suffix => do
    pass
    return { p with tag := ← tagOf handle suffix, tagged := true }
  | _ => return p

def properties : Reader Properties := do
  match ← upcoming with
  | .anchor _ => tagProperty (← anchorProperty {})
  | _ => anchorProperty (← tagProperty {})

def name (anchor : Option String) (n : Node) : Reader Unit := do
  match anchor with
  | none => return
  | some a => modify fun s => { s with anchors := Entries.put s.anchors a n }

/-- A scalar with the given properties; a lone exclamation mark makes its text decide. -/
def namedScalar (p : Properties) (text : String) (plain : Bool) : Reader Node := do
  let n := Node.scalar p.tag text (p.tag.isNone && (plain || p.tagged))
  name p.anchor n
  return n

/-- A collection has its name already while its parts are read. -/
def namedSequence (p : Properties) (items : Reader (List Node)) : Reader Node := do
  name p.anchor (.cycle false)
  let n := Node.sequence p.tag (← items)
  name p.anchor n
  return n

def namedMapping (p : Properties) (entries : Reader (List (Node × Node))) : Reader Node := do
  name p.anchor (.cycle true)
  let n := Node.mapping p.tag (← entries)
  name p.anchor n
  return n

/-- Without content an anchor or a tag makes an empty scalar. -/
def withoutContent (p : Properties) : Reader Node :=
  if p.anchor.isSome || p.tagged then namedScalar p "" true else refuse "a node is expected"

def aliased (a : String) : Reader Node := do
  pass
  match Entries.get? (← get).anchors a with
  | some n => return n
  | none => refuse "an alias has no anchor"

mutual
/-- The next node. In a block context block collections may stand here, and where `unindented` is
set a sequence that is not indented. -/
def node (block unindented : Bool) : (fuel : Nat) → Reader Node
  | 0 => refuse "nodes are nested too deeply"
  | fuel + 1 => do
    match ← upcoming with
    | .reference a => aliased a
    | _ => do
      let p ← properties
      let known := (← get).anchors
      if p.anchor.any fun a => (Entries.get? known a).isSome then
        refuse "an anchor is defined twice"
      else
        match ← upcoming with
        | .blockEntry =>
          if unindented then namedSequence p (unindentedItems fuel) else withoutContent p
        | .scalar text plain => do
          pass
          namedScalar p text plain
        | .flowSequence => do
          pass
          namedSequence p (flowItems true fuel)
        | .flowMapping => do
          pass
          namedMapping p (flowEntries true fuel)
        | .blockSequence =>
          if block then do
            pass
            namedSequence p (blockItems fuel)
          else withoutContent p
        | .blockMapping =>
          if block then do
            pass
            namedMapping p (blockEntries fuel)
          else withoutContent p
        | _ => withoutContent p

/-- A node, or the empty one if one of the given tokens comes next. -/
def nodeUnless (ends : List Token) (block unindented : Bool) : (fuel : Nat) → Reader Node
  | 0 => refuse "nodes are nested too deeply"
  | fuel + 1 => do
    if ← upcomingIs ends then return empty
    else node block unindented fuel

/-- The node behind a colon, the empty one if there is no colon. -/
def valueNode (ends : List Token) (block : Bool) : (fuel : Nat) → Reader Node
  | 0 => refuse "nodes are nested too deeply"
  | fuel + 1 => do
    if ← accept .value then nodeUnless ends block block fuel
    else return empty

def blockItems : (fuel : Nat) → Reader (List Node)
  | 0 => refuse "nodes are nested too deeply"
  | fuel + 1 => do
    if ← accept .blockEntry then
      let item ← nodeUnless [.blockEntry, .blockEnd] true false fuel
      let rest ← blockItems fuel
      return item :: rest
    else
      require .blockEnd "the end of a block sequence is expected"
      return []

def unindentedItems : (fuel : Nat) → Reader (List Node)
  | 0 => refuse "nodes are nested too deeply"
  | fuel + 1 => do
    if ← accept .blockEntry then
      let item ← nodeUnless [.blockEntry, .key, .value, .blockEnd] true false fuel
      let rest ← unindentedItems fuel
      return item :: rest
    else return []

def blockEntries : (fuel : Nat) → Reader (List (Node × Node))
  | 0 => refuse "nodes are nested too deeply"
  | fuel + 1 => do
    if ← accept .key then
      let key ← nodeUnless [.key, .value, .blockEnd] true true fuel
      let value ← valueNode [.key, .value, .blockEnd] true fuel
      let rest ← blockEntries fuel
      return (key, value) :: rest
    else
      require .blockEnd "the end of a block mapping is expected"
      return []

def flowItems (first : Bool) : (fuel : Nat) → Reader (List Node)
  | 0 => refuse "nodes are nested too deeply"
  | fuel + 1 => do
    if ← accept .flowSequenceEnd then return []
    else
      if !first then require .flowEntry "a comma or a closing bracket is expected"
      if ← accept .key then
        let key ← nodeUnless [.value, .flowEntry, .flowSequenceEnd] false false fuel
        let value ← valueNode [.flowEntry, .flowSequenceEnd] false fuel
        let rest ← flowItems false fuel
        return .mapping none [(key, value)] :: rest
      else if ← accept .flowSequenceEnd then return []
      else
        let item ← node false false fuel
        let rest ← flowItems false fuel
        return item :: rest

/-- The entries up to the closing brace; one without a key indicator has an empty value. -/
def flowEntries (first : Bool) : (fuel : Nat) → Reader (List (Node × Node))
  | 0 => refuse "nodes are nested too deeply"
  | fuel + 1 => do
    if ← accept .flowMappingEnd then return []
    else
      if !first then require .flowEntry "a comma or a closing brace is expected"
      if ← accept .key then
        let key ← nodeUnless [.value, .flowEntry, .flowMappingEnd] false false fuel
        let value ← valueNode [.flowEntry, .flowMappingEnd] false fuel
        let rest ← flowEntries false fuel
        return (key, value) :: rest
      else if ← accept .flowMappingEnd then return []
      else
        let key ← node false false fuel
        let rest ← flowEntries false fuel
        return (key, empty) :: rest
end

def standardHandles : Entries String String := [("!", "!"), ("!!", "tag:yaml.org,2002:")]

/-- The handles that the directives in front of a document define. -/
def directives (versionSeen : Bool) (handles : Entries String String) :
    List Token → Except Fault (Entries String String × List Token)
  | .versionDirective major :: rest =>
    if versionSeen || major ≠ 1 then malformed "one version 1 may be given"
    else directives true handles rest
  | .tagDirective handle start :: rest =>
    if (Entries.get? handles handle).isSome then malformed "a tag handle is defined twice"
    else directives versionSeen (handles ++ [(handle, start)]) rest
  | .otherDirective :: rest => directives versionSeen handles rest
  | rest => .ok (handles ++ standardHandles, rest)

def isEnding (tokens : List Token) : Bool := tokens.headD .ending = .ending

/-- Only document ends and the end of the text may follow. -/
def nothingFollows (tokens : List Token) : Except Fault Unit :=
  if isEnding (tokens.dropWhile (· = .documentEnd)) then .ok ()
  else malformed "a single document is expected"

def document (handles : Entries String String) (tokens : List Token) : Except Fault Node := do
  let (n, s) ← (node true false (4 * tokens.length + 8)).run ⟨tokens, [], handles⟩
  nothingFollows s.tokens
  .ok n

/-- A document behind its start mark, which may be empty. -/
def markedDocument (handles : Entries String String) (tokens : List Token) : Except Fault Node :=
  match tokens.headD .ending with
  | .documentStart | .documentEnd | .ending | .versionDirective _ | .tagDirective _ _
  | .otherDirective => do
    nothingFollows tokens
    .ok empty
  | _ => document handles tokens

/-- The single document of a text, none if the text holds no document. -/
def ofTokens (tokens : List Token) : Except Fault (Option Node) :=
  match tokens.headD .ending with
  | .ending => .ok none
  | .documentStart | .versionDirective _ | .tagDirective _ _ | .otherDirective => do
    let (handles, rest) ← directives false [] tokens
    match rest with
    | .documentStart :: rest => (markedDocument handles rest).map some
    | _ => malformed "the start of a document is expected"
  | _ => (document standardHandles tokens).map some

end Node

end Calculator.Yaml
