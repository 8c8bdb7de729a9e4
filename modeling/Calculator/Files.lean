import Calculator.Entries
import Calculator.Path
import Calculator.Text.Quoted
/-!
Files around a working directory. A path is followed part by part; reading it and opening it for a
log fail for the first reason on the way.
-/
namespace Calculator

inductive FileFault where
  | absent
  | denied
  | present
  | notDirectory
  | isDirectory
  | nameTooLong
  | nullCharacter

def FileFault.message (path : String) : FileFault → String
  | .absent => "[Errno 2] No such file or directory: " ++ Text.quoted path
  | .denied => "[Errno 13] Permission denied: " ++ Text.quoted path
  | .present => "[Errno 17] File exists: " ++ Text.quoted path
  | .notDirectory => "[Errno 20] Not a directory: " ++ Text.quoted path
  | .isDirectory => "[Errno 21] Is a directory: " ++ Text.quoted path
  | .nameTooLong => "[Errno 36] File name too long: " ++ Text.quoted path
  | .nullCharacter => "embedded null byte"

structure FileError where
  path : String
  fault : FileFault

def FileError.message (e : FileError) : String := e.fault.message e.path

abbrev FileReader := String → Except FileFault String

/-- Where a way begins: at the root, or some levels above the working directory. -/
inductive Start where
  | root
  | above (levels : Nat)
  deriving DecidableEq, Repr

/-- A place in the file system: the names on the way down from its start. -/
structure Place where
  start : Start
  names : List PathPart
  deriving DecidableEq, Repr

namespace Place

def ofText (path : String) : Place := ⟨if path.startsWith "/" then .root else .above 0, []⟩

/-- The directory above; the root is above itself. -/
def parent (p : Place) : Place :=
  match p.start, p.names with
  | .root, [] => p
  | .above levels, [] => ⟨.above (levels + 1), []⟩
  | start, names => ⟨start, names.dropLast⟩

def child (p : Place) (name : PathPart) : Place := ⟨p.start, p.names ++ [name]⟩

def isAbove (p q : Place) : Bool :=
  p.start = q.start && p.names.length < q.names.length && p.names.isPrefixOf q.names

def follow (p : Place) (part : PathPart) : Place :=
  if isIdle part then p else if isUpward part then p.parent else p.child part

end Place

/-- Texts by their places, and directories besides those that the texts need. -/
structure Files where
  texts : Entries Place String := []
  directories : List Place := []

namespace Files

def systemNames : List String := [
  "bin", "boot", "dev", "etc", "home", "lib", "media", "mnt", "opt", "proc", "root", "run", "sbin",
  "srv", "sys", "tmp", "usr", "var"]

def nullDevice : Place := ⟨.root, ["dev".toList, "null".toList]⟩

/-- The files of the working directory by their names, amid an otherwise empty system. -/
def ofTexts (texts : Entries String String) : Files where
  texts := (nullDevice, "") :: texts.map fun (name, text) =>
    (⟨.above 0, (Path.ofText name).parts⟩, text)
  directories := systemNames.map fun name => ⟨.root, [name.toList]⟩

def isFile (files : Files) (p : Place) : Bool := (Entries.get? files.texts p).isSome

def isDirectory (files : Files) (p : Place) : Bool :=
  p.names.isEmpty || files.directories.contains p || files.directories.any p.isAbove ||
    files.texts.any fun (q, _) => p.isAbove q

/-- Names have at most 255 bytes. -/
def isTooLong (name : PathPart) : Bool := 255 < (String.ofList name).utf8ByteSize

/-- A step from a place, which must be a directory, to one that is there. -/
def step (files : Files) (p : Place) (part : PathPart) : Except FileFault Place :=
  if files.isFile p then .error .notDirectory
  else if isTooLong part then .error .nameTooLong
  else
    let next := p.follow part
    if files.isFile next || files.isDirectory next then .ok next else .error .absent

/-- Paths have at most 4095 bytes, and no null character among them. -/
def checkText (path : String) : Except FileFault Unit :=
  if path.toList.contains '\x00' then .error .nullCharacter
  else if path.isEmpty then .error .absent
  else if 4095 < path.utf8ByteSize then .error .nameTooLong
  else .ok ()

def resolve (files : Files) (path : String) : Except FileFault Place := do
  checkText path
  (pathParts path.toList).foldlM files.step (.ofText path)

def read (files : Files) : FileReader := fun path => do
  let place ← files.resolve path
  match Entries.get? files.texts place with
  | some text => .ok text
  | none => .error .isDirectory

def makeDirectory (files : Files) (p : Path) : Except FileFault Files := do
  checkText p.text
  match p.parts.getLast? with
  | none => .error .present
  | some name => do
    let place ← files.resolve p.parent.text
    if files.isFile place then .error .notDirectory
    else if isUpward name then .error .present
    else if isTooLong name then .error .nameTooLong
    else
      let made := place.child name
      if files.isFile made || files.isDirectory made then .error .present
      else .ok { files with directories := files.directories ++ [made] }

/-- A fault in making a directory is none if the directory is there. -/
def unlessDirectory (files : Files) (p : Path) (fault : FileFault) : Except FileError Files :=
  match files.resolve p.text with
  | .ok place => if files.isDirectory place then .ok files else .error ⟨p.text, fault⟩
  | .error .nameTooLong => .error ⟨p.text, .nameTooLong⟩
  | .error _ => .error ⟨p.text, fault⟩

/-- Makes a directory and those above it as far as they are absent; the parts of its path stand in
reverse. -/
def makeDirectories (files : Files) (root : String) : List PathPart → Except FileError Files
  | [] => .ok files
  | part :: above =>
    let p : Path := ⟨root, (part :: above).reverse⟩
    match files.makeDirectory p with
    | .ok files => .ok files
    | .error .absent => do
      let files ← makeDirectories files root above
      match files.makeDirectory p with
      | .ok files => .ok files
      | .error fault => files.unlessDirectory p fault
    | .error fault => files.unlessDirectory p fault

/-- The path of a place below the root, and any other path as it is. -/
def shownPlace (p : Path) (place : Place) : String :=
  match place.start with
  | .root => Path.text ⟨p.root, place.names⟩
  | _ => p.text

def openToAppend (files : Files) (path : String) : Except FileError Files := do
  let p := Path.ofText path
  let files ← files.makeDirectories p.root p.parent.parts.reverse
  let place := p.parts.foldl Place.follow (.ofText path)
  let refuse (fault : FileFault) : Except FileError Files := .error ⟨shownPlace p place, fault⟩
  if path.toList.contains '\x00' then refuse .nullCharacter
  else if place.names.any isTooLong then refuse .nameTooLong
  else if files.isFile place then .ok files
  else if files.isDirectory place then refuse .isDirectory
  else .ok { files with texts := files.texts ++ [(place, "")] }

end Files

end Calculator
