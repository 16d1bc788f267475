import DumpArchive.Path
import DumpArchive.Stream.Source

/-! A tree of directories and files, and the ways in which an operation on it can fail. -/
namespace DumpArchive

/-- The names that lead from the root to a place. -/
abbrev Location := List String

inductive Node where
  | directory
  | file (content : Bytes)
  deriving DecidableEq, Repr

structure Tree where
  nodes : List (Location × Node)
  /-- Where paths that do not begin with a slash start. -/
  workingDirectory : Location

namespace Tree

inductive Fault where
  | notFound
  | fileExists
  | notDirectory
  | isDirectory
  | nameTooLong
  | zeroByte
  deriving DecidableEq, Repr

def Fault.error : Fault → IoError
  | .notFound => ⟨.notFound, "No such file or directory (os error 2)"⟩
  | .fileExists => ⟨.other, "File exists (os error 17)"⟩
  | .notDirectory => ⟨.other, "Not a directory (os error 20)"⟩
  | .isDirectory => ⟨.other, "Is a directory (os error 21)"⟩
  | .nameTooLong => ⟨.other, "File name too long (os error 36)"⟩
  | .zeroByte => ⟨.other, "file name contained an unexpected NUL byte"⟩

def empty : Tree := ⟨[], []⟩

def lookup (t : Tree) (place : Location) : Option Node :=
  if place = [] then some .directory else (t.nodes.find? (·.1 = place)).map (·.2)

def remove (place : Location) (t : Tree) : Tree :=
  { t with nodes := t.nodes.filter (·.1 ≠ place) }

def put (place : Location) (node : Node) (t : Tree) : Tree :=
  { t with nodes := (t.remove place).nodes ++ [(place, node)] }

/-- One name holds at most 255 bytes. -/
def isLong (name : String) : Bool := 255 < name.utf8ByteSize

/-- Goes along steps that must all lead to directories. -/
def enter (t : Tree) (here : Location) : List String → Except Fault Location
  | [] => .ok here
  | name :: rest =>
    if name = "." then enter t here rest
    else if name = ".." then enter t here.dropLast rest
    else if isLong name then .error .nameTooLong
    else match t.lookup (here ++ [name]) with
      | none => .error .notFound
      | some (.file _) => .error .notDirectory
      | some .directory => enter t (here ++ [name]) rest

/-- What the last step of a path picks out. -/
inductive Goal where
  /-- A directory that is passed already: dots, or no step at all. -/
  | passed (place : Location)
  /-- A name in a directory; what is there may be missing. -/
  | entry (directory : Location) (name : String)
  deriving DecidableEq, Repr

/-- All steps but the last must lead to directories. -/
def follow (t : Tree) (here : Location) (steps : List String) : Except Fault Goal :=
  match t.enter here steps.dropLast, steps.getLast? with
  | .error fault, _ => .error fault
  | .ok place, none => .ok (.passed place)
  | .ok place, some name =>
    if name = "." then .ok (.passed place)
    else if name = ".." then .ok (.passed place.dropLast)
    else .ok (.entry place name)

/-- The place of a goal, unless its name is too long for any. -/
def Goal.place : Goal → Except Fault Location
  | .passed place => .ok place
  | .entry directory name =>
    if isLong name then .error .nameTooLong else .ok (directory ++ [name])

def origin (t : Tree) (path : String) : Location :=
  if Path.isAbsolute path then [] else t.workingDirectory

/-- Texts that no path can be. -/
def refuse? (path : String) : Option Fault :=
  if path.toList.any (· = Char.ofNat 0) then some .zeroByte
  else if path = "" then some .notFound
  else if 4096 ≤ path.utf8ByteSize then some .nameTooLong
  else none

/-- Follows a path from where it starts. -/
def goal (t : Tree) (path : String) : Except Fault Goal :=
  match refuse? path with
  | some fault => .error fault
  | none => t.follow (t.origin path) (Path.steps path)

/-- The place that a path leads to; what is there may be missing. -/
def locate (t : Tree) (path : String) : Except Fault Location :=
  match t.goal path with
  | .error fault => .error fault
  | .ok goal => goal.place

/-- What a path leads to. A path that ends in a slash leads to a directory. -/
def find (t : Tree) (path : String) : Except Fault Node :=
  match t.locate path with
  | .error fault => .error fault
  | .ok place => match t.lookup place with
    | none => .error .notFound
    | some .directory => .ok .directory
    | some (.file content) =>
      if Path.endsInSlash path then .error .notDirectory else .ok (.file content)

def isDirectory (t : Tree) (path : String) : Bool :=
  match t.find path with
  | .ok .directory => true
  | _ => false

/-- A directory can be opened, but reading from it fails. -/
def openFile (t : Tree) (path : String) : Except Fault Source :=
  match t.find path with
  | .error fault => .error fault
  | .ok (.file content) => .ok (.ofBytes content)
  | .ok .directory =>
    .ok (.scheduled { Stream.Schedule.steady with fault := some (0, Fault.isDirectory.error) } [])

def content (t : Tree) (path : String) : Except Fault Bytes :=
  match t.find path with
  | .error fault => .error fault
  | .ok (.file content) => .ok content
  | .ok .directory => .error .isDirectory

/-- The place of a file to be written, whether it exists or not. A path that ends in a slash asks
for a directory, whatever its last name is. -/
def target (t : Tree) (path : String) : Except Fault Location :=
  match t.goal path with
  | .error fault => .error fault
  | .ok (.passed _) => .error .isDirectory
  | .ok (.entry directory name) =>
    if Path.endsInSlash path then .error .isDirectory
    else if isLong name then .error .nameTooLong
    else if t.lookup (directory ++ [name]) = some .directory then .error .isDirectory
    else .ok (directory ++ [name])

/-- Creates a file or replaces its content. -/
def writeFile (path : String) (content : Bytes) (t : Tree) : Except Fault Unit × Tree :=
  match t.target path with
  | .error fault => (.error fault, t)
  | .ok place => (.ok (), t.put place (.file content))

def removeFile (path : String) (t : Tree) : Tree :=
  match t.target path with
  | .error _ => t
  | .ok place => t.remove place

/-- Makes one directory; one that exists is left as it is. -/
def makeDirectory (here : Location) (steps : List String) (t : Tree) : Except Fault Unit × Tree :=
  match t.follow here steps with
  | .error fault => (.error fault, t)
  | .ok (.passed _) => (.ok (), t)
  | .ok (.entry directory name) =>
    if isLong name then (.error .nameTooLong, t)
    else match t.lookup (directory ++ [name]) with
      | some .directory => (.ok (), t)
      | some (.file _) => (.error .fileExists, t)
      | none => (.ok (), t.put (directory ++ [name]) .directory)

/-- Makes a directory, given its steps from the last to the first. Only where a step is missing on
the way is the directory above made before it. -/
def makeUpward (here : Location) : List String → Tree → Except Fault Unit × Tree
  | [], t => (.ok (), t)
  | name :: above, t => match t.makeDirectory here (name :: above).reverse with
    | (.error .notFound, t) => match makeUpward here above t with
      | (.error fault, t) => (.error fault, t)
      | (.ok (), t) => t.makeDirectory here (name :: above).reverse
    | (result, t) => (result, t)

/-- Makes a directory and those that are missing above it. -/
def makeDirectories (path : String) (t : Tree) : Except Fault Unit × Tree :=
  if path = "" then (.ok (), t)
  else match refuse? path with
    | some fault => (.error fault, t)
    | none => makeUpward (t.origin path) (Path.steps path).reverse t

/-- The names in a directory, in order. -/
def names (t : Tree) (place : Location) : List String :=
  (t.nodes.filterMap fun (other, _) =>
    if other.dropLast = place then other.getLast? else none).mergeSort fun a b => a ≤ b

def list (t : Tree) (path : String) : Except Fault (List String) :=
  match t.locate path with
  | .error fault => .error fault
  | .ok place => match t.lookup place with
    | none => .error .notFound
    | some (.file _) => .error .notDirectory
    | some .directory => .ok (t.names place)

/-- Puts a node at a path and makes the directories that lead there. -/
def install (path : String) (node : Node) (t : Tree) : Tree :=
  let above := (Path.steps path).reverse.tail
  let t := (makeUpward (t.origin path) above t).2
  match t.locate path with
  | .error _ => t
  | .ok place => t.put place node

/-- A tree that holds its working directory and the directories above it. -/
def around (place : Location) : Tree where
  nodes := (List.range place.length).map fun n => (place.take (n + 1), .directory)
  workingDirectory := place

/-- The path of a node from the working directory, if it lies below it; that of a directory ends
in a slash. -/
def shown? (t : Tree) (place : Location) (node : Node) : Option String :=
  let below := place.drop t.workingDirectory.length
  if below = [] ∨ place ≠ t.workingDirectory ++ below then none
  else match node with
    | .directory => some (String.intercalate "/" below ++ "/")
    | .file _ => some (String.intercalate "/" below)

/-- Every node below the working directory under its path, in order. -/
def listing (t : Tree) : List (String × Node) :=
  (t.nodes.filterMap fun (place, node) => (t.shown? place node).map (·, node)).mergeSort
    fun a b => a.1 ≤ b.1

end Tree
end DumpArchive
