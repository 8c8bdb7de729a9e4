import Calculator.Yaml.Cursor
/-!
Literals: the texts of quoted, plain and block scalars, with their lines folded as the style says.
-/
namespace Calculator.Yaml

namespace Cursor

/-- The lines that are empty but for blanks, each as what its break stands for; blanks are passed
up to where something stands in a line. `fuel` bounds the lines. -/
def quotedBreaks (c : Cursor) : (fuel : Nat) → Except Fault (List Char × Cursor)
  | 0 => .ok ([], c)
  | fuel + 1 =>
    if c.atDocumentMark then .error (.malformed "a document ends within quotes")
    else
      let c := c.skip isSpaceOrTab
      if isBreak c.current then do
        let (b, c) := c.lineBreak
        let (more, c) ← c.quotedBreaks fuel
        .ok (b ++ more, c)
      else .ok ([], c)

/-- Blanks or line breaks within quotes: a single break is a blank, further ones are kept. -/
def quotedSpaces (c : Cursor) : Except Fault (List Char × Cursor) :=
  let (blanks, c) := c.span isSpaceOrTab
  if isEnd c.current then .error (.malformed "the text ends within quotes")
  else if isBreak c.current then do
    let (b, c) := c.lineBreak
    let (breaks, c) ← c.quotedBreaks c.rest.length
    let first := if b ≠ ['\n'] then b else if breaks.isEmpty then [' '] else []
    .ok (first ++ breaks, c)
  else .ok (blanks, c)

def escape? : Char → Option Char
  | '0' => some '\x00'
  | 'a' => some '\x07'
  | 'b' => some '\x08'
  | 't' => some '\t'
  | '\t' => some '\t'
  | 'n' => some '\n'
  | 'v' => some '\x0b'
  | 'f' => some '\x0c'
  | 'r' => some '\r'
  | 'e' => some '\x1b'
  | ' ' => some ' '
  | '"' => some '"'
  | '\\' => some '\\'
  | '/' => some '/'
  | 'N' => some '\x85'
  | '_' => some '\xA0'
  | 'L' => some '\u2028'
  | 'P' => some '\u2029'
  | _ => none

/-- The number of digits behind a letter that writes a character by its code. -/
def escapeLength? : Char → Option Nat
  | 'x' => some 2
  | 'u' => some 4
  | 'U' => some 8
  | _ => none

def codeOf? (n : Nat) (cs : List Char) : Option Nat :=
  if n ≤ cs.length then hexValue? (cs.take n) else none

/-- The character whose first half has the given code, if an escape for the second half follows. -/
def joined? (code : Nat) : List Char → Option Char
  | '\\' :: 'u' :: cs => do
    let low ← codeOf? 4 cs
    if 0xD800 ≤ code && code < 0xDC00 && 0xDC00 ≤ low && low < 0xE000 then
      some (Char.ofNat (0x10000 + 0x400 * (code - 0xD800) + (low - 0xDC00)))
    else none
  | _ => none

def escaped (c : Cursor) : Except Fault (List Char × Cursor) :=
  let ch := c.current
  match escape? ch, escapeLength? ch with
  | some e, _ => .ok ([e], c.next)
  | none, some n =>
    match codeOf? n (c.rest.drop 1) with
    | some code =>
      let after := c.advance (n + 1)
      match joined? code after.rest with
      | some e => .ok ([e], after.advance 6)
      | none =>
        if code < 0x110000 then .ok ([Char.ofNat code], after) else .error .characterRange
    | none => .error (.malformed "hexadecimal digits are expected")
  | none, none =>
    if isBreak ch then do
      let c := c.lineBreak.2
      c.quotedBreaks c.rest.length
    else .error (.malformed "an unknown escape")

def quotedText (quote : Char) (c : Cursor) : (fuel : Nat) → Except Fault (List Char × Cursor)
  | 0 => .error (.malformed "the text ends within quotes")
  | fuel + 1 =>
    let ch := c.current
    if ch = quote then
      if quote = '\'' && c.peek 1 = '\'' then do
        let (more, c) ← quotedText quote (c.advance 2) fuel
        .ok ('\'' :: more, c)
      else .ok ([], c.next)
    else do
      let (first, c) ←
        if quote = '"' && ch = '\\' then c.next.escaped
        else if isGap ch then c.quotedSpaces
        else .ok ([ch], c.next)
      let (more, c) ← quotedText quote c fuel
      .ok (first ++ more, c)

/-- How many characters a plain scalar has in front of a blank, a line end or an indicator. -/
def plainLength (inFlow : Bool) : List Char → Nat
  | [] => 0
  | ch :: rest =>
    let following := rest.headD '\x00'
    let flowEnd (c : Char) : Bool := inFlow && (",[]\x7b\x7d".toList.contains c)
    if isGap ch || (ch = ':' && (isGap following || flowEnd following)) ||
        flowEnd ch || (inFlow && ch = '?') then 0
    else plainLength inFlow rest + 1

/-- Blank lines between the lines of a plain scalar; none if a document ends there. -/
def plainBreaks (c : Cursor) : (fuel : Nat) → Option (List Char × Cursor)
  | 0 => some ([], c)
  | fuel + 1 =>
    if c.current = ' ' then c.next.plainBreaks fuel
    else if isBreak c.current then
      let (b, c) := c.lineBreak
      if c.atDocumentMark then none
      else (c.plainBreaks fuel).map fun (more, c) => (b ++ more, c)
    else some ([], c)

structure PlainGap where
  text : List Char
  brokeLine : Bool
  cursor : Cursor

def plainGap (c : Cursor) : PlainGap :=
  let (blanks, c) := c.span isSpace
  if isBreak c.current then
    let (b, c) := c.lineBreak
    if c.atDocumentMark then ⟨[], true, c⟩
    else match c.plainBreaks (2 * c.rest.length + 1) with
      | none => ⟨[], true, c⟩
      | some (breaks, c) =>
        ⟨(if b ≠ ['\n'] then b else if breaks.isEmpty then [' '] else []) ++ breaks, true, c⟩
  else ⟨blanks, false, c⟩

/-- The rest of a plain scalar behind `gap`, whether a line was broken, and the place behind. -/
def plainText (inFlow : Bool) (indent : Int) (gap : PlainGap) :
    (fuel : Nat) → List Char × Bool × Cursor
  | 0 => ([], gap.brokeLine, gap.cursor)
  | fuel + 1 =>
    let c := gap.cursor
    let length := if c.current = '#' then 0 else plainLength inFlow c.rest
    if length = 0 then ([], gap.brokeLine, c)
    else
      let part := c.rest.take length
      let after := (c.advance length).plainGap
      if after.text.isEmpty || after.cursor.current = '#' ||
          (!inFlow && (after.cursor.column : Int) < indent) then
        (gap.text ++ part, after.brokeLine, after.cursor)
      else
        let (more, broke, c) := plainText inFlow indent after fuel
        (gap.text ++ part ++ more, broke, c)

/-- How the line breaks at the end of a block scalar are kept. -/
inductive Chomping where
  | clip
  | strip
  | keep
  deriving DecidableEq

structure BlockHead where
  chomping : Chomping
  indentation : Option Nat

def chompingOf? (c : Char) : Option Chomping :=
  if c = '+' then some .keep else if c = '-' then some .strip else none

def indentationOf? (c : Char) : Option Nat :=
  if c.isDigit then some (c.toNat - '0'.toNat) else none

def blockHead (c : Cursor) : Except Fault (BlockHead × Cursor) := do
  let (head, c) : BlockHead × Cursor :=
    match chompingOf? c.current with
    | some chomping =>
      match indentationOf? (c.peek 1) with
      | some n => (⟨chomping, some n⟩, c.advance 2)
      | none => (⟨chomping, none⟩, c.next)
    | none =>
      match indentationOf? c.current with
      | some n =>
        match chompingOf? (c.peek 1) with
        | some chomping => (⟨chomping, some n⟩, c.advance 2)
        | none => (⟨.clip, some n⟩, c.next)
      | none => (⟨.clip, none⟩, c)
  if head.indentation = some 0 then .error (.malformed "the indentation is not positive")
  else if !(c.current = ' ' || endsLine c.current) then
    .error (.malformed "an indentation or chomping indicator is expected")
  else do
    let c ← c.restOfLine
    .ok (head, c)

/-- Leading empty lines, and the greatest column that blanks reach in them. -/
def blockLead (c : Cursor) (column : Nat) : (fuel : Nat) → List Char × Nat × Cursor
  | 0 => ([], column, c)
  | fuel + 1 =>
    if c.current = ' ' then c.next.blockLead (max column c.next.column) fuel
    else if isBreak c.current then
      let (b, c) := c.lineBreak
      let (more, column, c) := c.blockLead column fuel
      (b ++ more, column, c)
    else ([], column, c)

def blockBreaks (c : Cursor) (indent : Nat) : (fuel : Nat) → List Char × Cursor
  | 0 => ([], c)
  | fuel + 1 =>
    if c.column < indent && c.current = ' ' then c.next.blockBreaks indent fuel
    else if isBreak c.current then
      let (b, c) := c.lineBreak
      let (more, c) := c.blockBreaks indent fuel
      (b ++ more, c)
    else ([], c)

def blockBreaksOf (c : Cursor) (indent : Nat) : List Char × Cursor :=
  c.blockBreaks indent (c.rest.length + 1)

/-- The lines of a block scalar: its text without the last break, that break, the empty lines
behind it and the place reached. `breaks` are the empty lines in front. -/
def blockLines (folded : Bool) (indent : Nat) (breaks : List Char) (c : Cursor) :
    (fuel : Nat) → List Char × List Char × List Char × Cursor
  | 0 => ([], [], breaks, c)
  | fuel + 1 =>
    if c.column = indent && !isEnd c.current then
      let startsFull := !isSpaceOrTab c.current
      let (line, c) := c.span fun ch => !endsLine ch
      let (b, c) := c.lineBreak
      let (after, c) := c.blockBreaksOf indent
      let continues := c.column = indent && !isEnd c.current
      let joint :=
        if !continues then []
        else if folded && b = ['\n'] && startsFull && !isSpaceOrTab c.current then
          (if after.isEmpty then [' '] else [])
        else b
      if continues then
        let (more, last, ending, c) := blockLines folded indent after c fuel
        (breaks ++ line ++ joint ++ more, last, ending, c)
      else (breaks ++ line, b, after, c)
    else ([], [], breaks, c)

/-- A block scalar in a collection with the given indentation, from behind its indicator. -/
def blockText (folded : Bool) (indent : Int) (c : Cursor) : Except Fault (List Char × Cursor) := do
  let (head, c) ← c.blockHead
  let least := (max 1 (indent + 1)).toNat
  let (breaks, width, c) : List Char × Nat × Cursor :=
    match head.indentation with
    | some n =>
      let width := least + n - 1
      let (breaks, c) := c.blockBreaksOf width
      (breaks, width, c)
    | none =>
      let (breaks, column, c) := c.blockLead 0 (c.rest.length + 1)
      (breaks, max least column, c)
  let (text, last, ending, c) := blockLines folded width breaks c (c.rest.length + 1)
  .ok (text ++ (if head.chomping = .strip then [] else last) ++
    (if head.chomping = .keep then ending else []), c)

end Cursor

end Calculator.Yaml
