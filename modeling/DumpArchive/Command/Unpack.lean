import DumpArchive.Command.Arguments
import DumpArchive.Command.Outcome

/-! Unpacking an archive into a directory of databases. The descriptions are written first, then
the records. -/
namespace DumpArchive.Command.Unpack

/-- A selected namespace and the file of its records. -/
structure Selected where
  ns : Namespace
  path : String

/-- The file of every namespace. All are looked at before anything is written. -/
def select (refuse : EngineError → Failure) (out : String) :
    List Namespace → Except Failure (List Selected)
  | [] => .ok []
  | ns :: rest => match Path.data out ns with
    | .error e => .error (refuse e)
    | .ok path => match select refuse out rest with
      | .error failure => .error failure
      | .ok more => .ok (⟨ns, path⟩ :: more)

/-- The catalog's fault is bad data, a bad name among the arguments is misuse. -/
def selection (args : UnpackArgs) (c : Catalog) : Except Failure (List Selected) :=
  if args.namespaces = [] then
    select (fun e => ⟨.dataInvalid, Failure.inContext "archive catalog" e.message⟩) args.out
      c.namespaces
  else select (.ofEngineError "unpack") args.out args.namespaces

/-- Makes the directory that a file lies in, if its path has one, and those above. -/
def makeRoom (path : String) (t : Tree) : Except Tree.Fault Unit × Tree :=
  match Path.parent? path with
  | none => (.ok (), t)
  | some directory => t.makeDirectories directory

/-- Writes the description of a namespace beside the file for its records. -/
def describe (s : Selected) (metadata : String) (t : Tree) : Except Failure Unit × Tree :=
  let path := Path.withExtension s.path "metadata.json"
  match makeRoom path t with
  | (.error fault, t) =>
    (.error (.ofIoError ("create " ++ (Path.parent? path).getD "") fault.error), t)
  | (.ok (), t) => match t.writeFile path (Bytes.ofText metadata) with
    | (.error fault, t) => (.error (.ofIoError ("write " ++ path) fault.error), t)
    | (.ok (), t) => (.ok (), t)

/-- Writes the descriptions that the catalog has. Other namespaces are refused later. -/
def describeAll (c : Catalog) : List Selected → Tree → Except Failure Unit × Tree
  | [], t => (.ok (), t)
  | s :: rest, t => match c.entryFor? s.ns with
    | none => describeAll c rest t
    | some e => match describe s e.metadata t with
      | (.error failure, t) => (.error failure, t)
      | (.ok (), t) => describeAll c rest t

/-- Creates the file for the records of a namespace. -/
def create (s : Selected) (t : Tree) : Restore.Intent × Tree :=
  match makeRoom s.path t with
  | (.error fault, t) => (⟨s.ns, .refuses fault.error⟩, t)
  | (.ok (), t) => match t.writeFile s.path [] with
    | (.error fault, t) => (⟨s.ns, .refuses fault.error⟩, t)
    | (.ok (), t) => (⟨s.ns, .opens .empty⟩, t)

def createAll : List Selected → Tree → List Restore.Intent × Tree
  | [], t => ([], t)
  | s :: rest, t =>
    let (intent, t) := create s t
    let (more, t) := createAll rest t
    (intent :: more, t)

/-- Files what the destinations have accepted. -/
def store : List Selected → List Restore.Intent → List Restore.Worker → Tree → Tree
  | s :: selected, i :: intents, w :: workers, t =>
    let t := match i.destination with
      | .opens _ => (t.writeFile s.path w.sink.accepted).2
      | _ => t
    store selected intents workers t
  | _, _, _, t => t

/-- Restores the selected namespaces once the engine admits them. Their files are created before it
reads on in the archive. -/
def restore (readOn : Tree → Restore.Archive → Restore.Archive) (a : Restore.Archive)
    (selected : List Selected) (t : Tree) : Except Failure Summary × Tree :=
  match Restore.prepare (selected.map fun s => ⟨s.ns, .opens .empty⟩) a with
  | .error e => (.error (.ofEngineError "unpack failed" e), t)
  | .ok _ =>
    let (intents, t) := createAll selected t
    let (result, workers) := Restore.restore intents (readOn t a)
    let t := store selected intents workers t
    match result with
    | .error e => (.error (.ofEngineError "unpack failed" e), t)
    | .ok summary => (.ok summary, t)

def run (format : OutputFormat) (args : UnpackArgs) (s : Setting) : Outcome :=
  match openArchive s args.archive with
  | .error failure => .failed s.tree failure
  | .ok archive => match selection args archive.catalog with
    | .error failure => .failed s.tree failure
    | .ok selected => match describeAll archive.catalog selected s.tree with
      | (.error failure, t) => .failed t failure
      | (.ok (), t) => match restore (readOn s args.archive) archive selected t with
        | (.error failure, t) => .failed t failure
        | (.ok summary, t) =>
          .printed t (Report.summary format (Report.schema "unpack-summary") args.archive summary)

end DumpArchive.Command.Unpack
