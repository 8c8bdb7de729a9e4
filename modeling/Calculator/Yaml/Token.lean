import Calculator.Entries
import Calculator.Yaml.Literal
/-!
Tokens of a YAML text. The indentation becomes explicit block tokens, and a key without its own
indicator gets a key token in front of it once the colon behind it is met.
-/
namespace Calculator.Yaml

inductive Token where
  | versionDirective (major : Nat)
  | tagDirective (handle start : String)
  | otherDirective
  | documentStart
  | documentEnd
  | blockSequence
  | blockMapping
  | blockEnd
  | flowSequence
  | flowSequenceEnd
  | flowMapping
  | flowMappingEnd
  | blockEntry
  | flowEntry
  | key
  | value
  | reference (name : String)
  | anchor (name : String)
  | tag (handle : Option String) (suffix : String)
  | scalar (text : String) (plain : Bool)
  | ending
  deriving DecidableEq

/-- A place where a key may have begun: the number of tokens in front of it, and whether a key must
be there because of its indentation. -/
structure KeyCandidate where
  tokens : Nat
  required : Bool
  index : Nat
  line : Nat
  column : Nat

/-- The text that is left, the open collections, and the tokens so far, the last one first. -/
structure Scanner where
  cursor : Cursor
  flows : Nat := 0
  indent : Int := -1
  outerIndents : List Int := []
  keyAllowed : Bool := true
  candidates : Entries Nat KeyCandidate := []
  reversed : List Token := []

abbrev Scanned := Except Fault Scanner

namespace Scanner

def emit (s : Scanner) (t : Token) : Scanner := { s with reversed := t :: s.reversed }

def pass (s : Scanner) (n : Nat) : Scanner := { s with cursor := s.cursor.advance n }

def insert (s : Scanner) (n : Nat) (t : Token) : Scanner :=
  let later := s.reversed.length - n
  { s with reversed := s.reversed.take later ++ t :: s.reversed.drop later }

def inFlow (s : Scanner) : Bool := s.flows ≠ 0

/-- Passes blanks, comments and line breaks; behind a line break outside of brackets a key may
begin. `fuel` bounds the lines. -/
def toNextToken (s : Scanner) : (fuel : Nat) → Scanner
  | 0 => s
  | fuel + 1 =>
    let c := s.cursor.skip isSpace
    let c := if c.current = '#' then c.skip (fun ch => !endsLine ch) else c
    let (b, c) := c.lineBreak
    if b.isEmpty then { s with cursor := c }
    else toNextToken { s with cursor := c, keyAllowed := s.keyAllowed || !s.inFlow } fuel

/-- Forgets the places where it is too late for a key, which none may be if it is required. -/
def dropStale (s : Scanner) : Scanned :=
  let isStale (k : KeyCandidate) : Bool :=
    k.line ≠ s.cursor.line || k.index + 1024 < s.cursor.index
  if s.candidates.any fun (_, k) => isStale k && k.required then
    malformed "a colon is expected behind a key"
  else .ok { s with candidates := s.candidates.filter fun (_, k) => !isStale k }

def dropCandidate (s : Scanner) : Scanned :=
  match Entries.get? s.candidates s.flows with
  | some k =>
    if k.required then malformed "a colon is expected behind a key"
    else .ok { s with candidates := Entries.erase s.candidates s.flows }
  | none => .ok s

def noteCandidate (s : Scanner) : Scanned :=
  if s.keyAllowed then do
    let s ← s.dropCandidate
    let c := s.cursor
    let k : KeyCandidate :=
      ⟨s.reversed.length, !s.inFlow && s.indent = c.column, c.index, c.line, c.column⟩
    .ok { s with candidates := Entries.put s.candidates s.flows k }
  else .ok s

def closeBlocks (column : Int) (s : Scanner) : List Int → Scanner
  | [] => { s with outerIndents := [] }
  | outer :: outers =>
    if s.indent > column then
      closeBlocks column { s.emit .blockEnd with indent := outer } outers
    else { s with outerIndents := outer :: outers }

def unwind (s : Scanner) (column : Int) : Scanner :=
  if s.inFlow then s else closeBlocks column s s.outerIndents

/-- Opens a block collection, by a token behind the first `n` ones, if the column is deeper. -/
def openBlock (s : Scanner) (column n : Nat) (t : Token) : Scanner :=
  if s.indent < column then
    { s.insert n t with indent := column, outerIndents := s.indent :: s.outerIndents }
  else s

def openBlockHere (s : Scanner) (t : Token) : Scanner :=
  s.openBlock s.cursor.column s.reversed.length t

/-- A token of `n` characters behind which a key may begin or not. -/
def indicator (s : Scanner) (t : Token) (n : Nat) (keyAllowed : Bool) : Scanner :=
  { (s.emit t).pass n with keyAllowed := keyAllowed }

def literal (s : Scanner) (t : Token) (c : Cursor) (keyAllowed : Bool) : Scanner :=
  { s.emit t with cursor := c, keyAllowed := keyAllowed }

def documentMark (s : Scanner) (t : Token) : Scanned := do
  let s ← (s.unwind (-1)).dropCandidate
  .ok (s.indicator t 3 false)

def flowStart (s : Scanner) (t : Token) : Scanned := do
  let s ← s.noteCandidate
  .ok { s.indicator t 1 true with flows := s.flows + 1 }

def flowEnd (s : Scanner) (t : Token) : Scanned := do
  let s ← s.dropCandidate
  if s.inFlow then .ok { s.indicator t 1 false with flows := s.flows - 1 }
  else malformed "a bracket is closed that is not open"

def flowEntry (s : Scanner) : Scanned := do
  let s ← s.dropCandidate
  .ok (s.indicator .flowEntry 1 true)

def blockEntry (s : Scanner) : Scanned := do
  if !s.inFlow && !s.keyAllowed then malformed "a sequence entry is not allowed here"
  else do
    let s := if s.inFlow then s else s.openBlockHere .blockSequence
    let s ← s.dropCandidate
    .ok (s.indicator .blockEntry 1 true)

def explicitKey (s : Scanner) : Scanned := do
  if !s.inFlow && !s.keyAllowed then malformed "a mapping key is not allowed here"
  else do
    let s := if s.inFlow then s else s.openBlockHere .blockMapping
    let s ← s.dropCandidate
    .ok (s.indicator .key 1 (!s.inFlow))

/-- A colon makes a key of what began at the last place where a key may have begun. -/
def colon (s : Scanner) : Scanned :=
  match Entries.get? s.candidates s.flows with
  | some k =>
    let s := { s with candidates := Entries.erase s.candidates s.flows }
    let s := s.insert k.tokens .key
    let s := if s.inFlow then s else s.openBlock k.column k.tokens .blockMapping
    .ok (s.indicator .value 1 false)
  | none =>
    if !s.inFlow && !s.keyAllowed then malformed "a mapping value is not allowed here"
    else do
      let s := if s.inFlow then s else s.openBlockHere .blockMapping
      let s ← s.dropCandidate
      .ok (s.indicator .value 1 (!s.inFlow))

def anchorName (c : Cursor) : Except Fault (String × Cursor) :=
  let (name, c) := c.next.span isWordChar
  if name.isEmpty then malformed "a name is expected"
  else if isGap c.current || "?:,]\x7d%@\x60".toList.contains c.current then
    .ok (String.ofList name, c)
  else malformed "a name holds other characters than letters and digits"

def anchor (s : Scanner) (t : String → Token) : Scanned := do
  let s ← s.noteCandidate
  let (name, c) ← anchorName s.cursor
  .ok (s.literal (t name) c false)

def isUriChar (c : Char) : Bool := c.isAlphanum || "-;/?:@&=+$,_.!~*'()[]%".toList.contains c

/-- The bytes that a run of percent signs and digits stands for. -/
def percentBytes : List Char → Option (List UInt8)
  | '%' :: a :: b :: rest => do
    let n ← hexValue? [a, b]
    let bytes ← percentBytes rest
    some (UInt8.ofNat n :: bytes)
  | [] => some []
  | _ => none

def percentRun : List Char → List Char
  | '%' :: a :: b :: rest => '%' :: a :: b :: percentRun rest
  | '%' :: rest => '%' :: rest
  | _ => []

def decodeUri (cs : List Char) : (fuel : Nat) → Except Fault (List Char)
  | 0 => .ok []
  | fuel + 1 =>
    match cs with
    | [] => .ok []
    | '%' :: _ =>
      let run := percentRun cs
      match (percentBytes run).bind fun bytes => String.fromUTF8? ⟨bytes.toArray⟩ with
      | some text => do
        let more ← decodeUri (cs.drop run.length) fuel
        .ok (text.toList ++ more)
      | none => malformed "an escape in a tag is no character"
    | c :: rest => do
      let more ← decodeUri rest fuel
      .ok (c :: more)

def uri (c : Cursor) : Except Fault (String × Cursor) :=
  let (cs, c) := c.span isUriChar
  if cs.isEmpty then malformed "a tag is expected"
  else do
    let text ← decodeUri cs cs.length
    .ok (String.ofList text, c)

def tagHandle (c : Cursor) : Except Fault (String × Cursor) :=
  if c.current ≠ '!' then malformed "an exclamation mark is expected"
  else if c.peek 1 = ' ' then .ok ("!", c.next)
  else
    let (name, after) := c.next.span isWordChar
    if after.current = '!' then .ok (String.ofList ('!' :: name ++ ['!']), after.next)
    else malformed "an exclamation mark is expected"

/-- Whether an exclamation mark stands in the word that follows the first character. -/
def hasHandle (c : Cursor) : Bool :=
  ((c.rest.drop 1).takeWhile fun ch => !(ch = ' ' || endsLine ch)).contains '!'

def tagAt (c : Cursor) : Except Fault (Token × Cursor) := do
  let ch := c.peek 1
  let (t, c) ←
    if ch = '<' then do
      let (suffix, c) ← uri (c.advance 2)
      if c.current = '>' then .ok (Token.tag none suffix, c.next)
      else malformed "a closing angle bracket is expected"
    else if isGap ch then .ok (Token.tag none "!", c.next)
    else if hasHandle c then do
      let (handle, c) ← tagHandle c
      let (suffix, c) ← uri c
      .ok (Token.tag (some handle) suffix, c)
    else do
      let (suffix, c) ← uri c.next
      .ok (Token.tag (some "!") suffix, c)
  if c.current = ' ' || endsLine c.current then .ok (t, c)
  else malformed "a blank is expected behind a tag"

def tag (s : Scanner) : Scanned := do
  let s ← s.noteCandidate
  let (t, c) ← tagAt s.cursor
  .ok (s.literal t c false)

def directiveVersion (c : Cursor) : Except Fault (Token × Cursor) :=
  let (major, c) := (c.skip isSpace).span Char.isDigit
  if major.isEmpty || c.current ≠ '.' then malformed "a version is expected"
  else
    let (minor, c) := c.next.span Char.isDigit
    if minor.isEmpty || !(c.current = ' ' || endsLine c.current) then
      malformed "a version is expected"
    else .ok (.versionDirective (major.foldl (fun n d => 10 * n + (d.toNat - 48)) 0), c)

def directiveTag (c : Cursor) : Except Fault (Token × Cursor) := do
  let (handle, c) ← tagHandle (c.skip isSpace)
  if c.current ≠ ' ' then malformed "a blank is expected behind a handle"
  else do
    let (start, c) ← uri (c.skip isSpace)
    if c.current = ' ' || endsLine c.current then .ok (.tagDirective handle start, c)
    else malformed "a blank is expected behind a tag"

def directiveAt (c : Cursor) : Except Fault (Token × Cursor) := do
  let (name, c) := c.next.span isWordChar
  if name.isEmpty || !(c.current = ' ' || endsLine c.current) then
    malformed "the name of a directive is expected"
  else do
    let (t, c) ←
      if name = "YAML".toList then directiveVersion c
      else if name = "TAG".toList then directiveTag c
      else .ok (.otherDirective, c.skip fun ch => !endsLine ch)
    let c ← c.restOfLine
    .ok (t, c)

def directive (s : Scanner) : Scanned := do
  let s ← (s.unwind (-1)).dropCandidate
  let (t, c) ← directiveAt s.cursor
  .ok (s.literal t c false)

def blockScalar (s : Scanner) (folded : Bool) : Scanned := do
  let s ← s.dropCandidate
  let (text, c) ← s.cursor.next.blockText folded s.indent
  .ok (s.literal (.scalar (String.ofList text) false) c true)

def quotedScalar (s : Scanner) (quote : Char) : Scanned := do
  let s ← s.noteCandidate
  let c := s.cursor.next
  let (text, c) ← c.quotedText quote (c.rest.length + 1)
  .ok (s.literal (.scalar (String.ofList text) false) c false)

def plainScalar (s : Scanner) : Scanned := do
  let s ← s.noteCandidate
  let c := s.cursor
  let (text, broke, c) :=
    Cursor.plainText s.inFlow (s.indent + 1) ⟨[], false, c⟩ (c.rest.length + 1)
  .ok (s.literal (.scalar (String.ofList text) true) c broke)

/-- Whether a plain scalar may begin with the current character. -/
def startsPlain (s : Scanner) : Bool :=
  let ch := s.cursor.current
  if isGap ch || "-?:,[]\x7b\x7d#&*!|>'\"%@\x60".toList.contains ch then
    !isGap (s.cursor.peek 1) && (ch = '-' || (!s.inFlow && (ch = '?' || ch = ':')))
  else true

/-- The next token and those that the indentation brings. -/
def fetch (s : Scanner) : Scanned := do
  let s ← (s.toNextToken (s.cursor.rest.length + 1)).dropStale
  let s := s.unwind s.cursor.column
  let c := s.cursor
  let ch := c.current
  let gapAhead := isGap (c.peek 1)
  if isEnd ch then do
    let s ← (s.unwind (-1)).dropCandidate
    .ok (s.emit .ending)
  else if ch = '%' && c.column = 0 then s.directive
  else if ch = '-' && c.column = 0 && c.atDocumentMark then s.documentMark .documentStart
  else if ch = '.' && c.column = 0 && c.atDocumentMark then s.documentMark .documentEnd
  else if ch = '[' then s.flowStart .flowSequence
  else if ch = '\x7b' then s.flowStart .flowMapping
  else if ch = ']' then s.flowEnd .flowSequenceEnd
  else if ch = '\x7d' then s.flowEnd .flowMappingEnd
  else if ch = ',' then s.flowEntry
  else if ch = '-' && gapAhead then s.blockEntry
  else if ch = '?' && (s.inFlow || gapAhead) then s.explicitKey
  else if ch = ':' && (s.inFlow || gapAhead) then s.colon
  else if ch = '*' then s.anchor .reference
  else if ch = '&' then s.anchor .anchor
  else if ch = '!' then s.tag
  else if ch = '|' && !s.inFlow then s.blockScalar false
  else if ch = '>' && !s.inFlow then s.blockScalar true
  else if ch = '\'' || ch = '"' then s.quotedScalar ch
  else if s.startsPlain then s.plainScalar
  else malformed "no token begins with this character"

/-- All tokens up to the end of the text; every step passes at least one character. -/
def run (s : Scanner) : (fuel : Nat) → Except Fault (List Token)
  | 0 => malformed "the text does not end"
  | fuel + 1 => do
    let s ← s.fetch
    match s.reversed with
    | .ending :: _ => .ok s.reversed.reverse
    | _ => run s fuel

end Scanner

def isReadable (c : Char) : Bool :=
  let n := c.toNat
  n == 0x9 || n == 0xA || n == 0xD || (0x20 ≤ n && n ≤ 0x7E) || n == 0x85 ||
    (0xA0 ≤ n && n ≤ 0xD7FF) || (0xE000 ≤ n && n ≤ 0xFFFD) || 0x10000 ≤ n

/-- The tokens of a text; a byte order mark in front is passed over. -/
def Token.scan (text : List Char) : Except Fault (List Token) :=
  if text.all isReadable then
    let c := Cursor.start text
    let c := if c.current = '\uFEFF' then c.next else c
    Scanner.run ⟨c, 0, -1, [], true, [], []⟩ (text.length + 2)
  else malformed "the text holds an unreadable character"

end Calculator.Yaml
