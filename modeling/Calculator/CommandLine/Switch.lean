/-!
The switches of the command line and their spellings.
-/
namespace Calculator.CommandLine

inductive Switch where
  | help
  | variable
  | context
  | tree
  | quiet
  deriving DecidableEq, Repr

namespace Switch

def all : List Switch := [.help, .variable, .context, .tree, .quiet]

def spellings : Switch → List String
  | .help => ["-h", "--help"]
  | .variable => ["-v", "--var"]
  | .context => ["--context"]
  | .tree => ["--show-tree"]
  | .quiet => ["-q", "--quiet"]

def takesValue : Switch → Bool
  | .variable => true
  | .context => true
  | _ => false

def title (s : Switch) : String := String.intercalate "/" s.spellings

def spelled : List (String × Switch) :=
  all.flatMap fun s => s.spellings.map fun spelling => (spelling, s)

def ofSpelling? (text : String) : Option Switch :=
  (spelled.find? fun (spelling, _) => spelling = text).map Prod.snd

def ofLetter? (c : Char) : Option Switch := ofSpelling? (String.ofList ['-', c])

def abbreviated (text : List Char) : List (String × Switch) :=
  spelled.filter fun (spelling, _) => text.isPrefixOf spelling.toList

end Switch

end Calculator.CommandLine
