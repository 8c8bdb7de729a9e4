/-!
Paths of files: texts with slashes between their parts.
-/
namespace Calculator

abbrev PathPart := List Char

def pathParts : List Char → List PathPart
  | [] => [[]]
  | '/' :: rest => [] :: pathParts rest
  | c :: rest =>
    match pathParts rest with
    | part :: parts => (c :: part) :: parts
    | [] => [[c]]

/-- Whether a part names the directory that it stands in. -/
def isIdle (part : PathPart) : Bool := part.isEmpty || part = ['.']

/-- Whether a part names the directory above. -/
def isUpward (part : PathPart) : Bool := part = ['.', '.']

def rootOf (text : String) : String :=
  match text.toList.takeWhile (· = '/') with
  | [] => ""
  | ['/', '/'] => "//"
  | _ => "/"

structure Path where
  root : String
  parts : List PathPart

namespace Path

def ofText (text : String) : Path :=
  ⟨rootOf text, (pathParts text.toList).filter fun part => !isIdle part⟩

def text (p : Path) : String :=
  let text := p.root ++ String.intercalate "/" (p.parts.map String.ofList)
  if text.isEmpty then "." else text

def parent (p : Path) : Path := ⟨p.root, p.parts.dropLast⟩

end Path

end Calculator
