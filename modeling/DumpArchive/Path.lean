import DumpArchive.Error
import DumpArchive.Namespace

/-! Path texts, and where a namespace lives below a directory. -/
namespace DumpArchive.Path

/-- The pieces between slashes. -/
def segments : List Char → List (List Char)
  | [] => [[]]
  | c :: rest =>
    if c = '/' then [] :: segments rest
    else match segments rest with
      | [] => [[c]]
      | s :: more => (c :: s) :: more

/-- The steps that a path takes: its pieces that are not empty. A dot stays where it is, and two
dots go up. -/
def steps (path : String) : List String :=
  ((segments path.toList).filter fun s => s ≠ []).map String.ofList

def isAbsolute (path : String) : Bool := path.toList.head? = some '/'

def endsInSlash (path : String) : Bool := path.toList.getLast? = some '/'

/-- A name that begins with a slash stands for itself. Else a slash comes between, unless the
directory is empty or ends in one. -/
def join (directory name : String) : String :=
  if isAbsolute name then name
  else if directory = "" || endsInSlash directory then directory ++ name
  else directory ++ "/" ++ name

/-- What a path is made of. -/
inductive Component where
  | root
  /-- A dot at the beginning. -/
  | here
  | up
  | name (s : String)
  deriving DecidableEq, Repr

/-- Pieces that are empty, and dots behind the first piece, say nothing. -/
def components (path : String) : List Component :=
  let pieces := segments path.toList
  let start := if isAbsolute path then [.root] else if pieces.head? = some ['.'] then [.here] else []
  start ++ pieces.filterMap fun s =>
    if s = [] ∨ s = ['.'] then none
    else if s = ['.', '.'] then some .up
    else some (.name (String.ofList s))

/-- Without the pieces at the end that say nothing. -/
def trimPieces (pieces : List (List Char)) : List (List Char) :=
  (pieces.reverse.dropWhile fun s => s = [] || s = ['.']).reverse

def ofPieces (pieces : List (List Char)) : String := String.ofList (['/'].intercalate pieces)

/-- A name up to its last dot, if there is something before that. -/
def stem (name : List Char) : List Char :=
  match name.reverse.dropWhile (· ≠ '.') with
  | _ :: c :: front => (c :: front).reverse
  | _ => name

/-- Another extension for the last name of a path, if its last component is a name. -/
def withExtension (path extension : String) : String :=
  match (trimPieces (segments path.toList)).reverse with
  | [] => path
  | name :: above =>
    if name = ['.', '.'] then path
    else ofPieces ((stem name ++ '.' :: extension.toList) :: above).reverse

/-- A path without its last component; the root has none to lose. -/
def parent? (path : String) : Option String :=
  let dotted := (segments path.toList).head? = some ['.']
  let body := trimPieces (segments path.toList)
  let above := trimPieces body.dropLast
  if body = [] then if dotted then some "" else none
  else if above = [] then some (if isAbsolute path then "/" else if dotted then "." else "")
  else some (ofPieces above)

/-- One component that is a name, and no other. -/
def isSoleName : List Component → Bool
  | [.name _] => true
  | _ => false

/-- A name that is one component on this system, and nothing else on any other. -/
def isPlain (name : String) : Bool :=
  name ≠ "" && name.toList.all (fun c => c ≠ '/' && c ≠ '\\' && c ≠ Char.ofNat 0)
    && isSoleName (components name)

def isPlainNamespace (ns : Namespace) : Bool := isPlain ns.db && isPlain ns.collection

/-- The file for the records of a namespace. Names come from archives that need not be trusted, so
only plain names are joined. -/
def data (root : String) (ns : Namespace) : Except EngineError String :=
  if isPlainNamespace ns then .ok (join (join root ns.db) (ns.collection ++ ".bson"))
  else .error (.invalid ns.shown)

end DumpArchive.Path
