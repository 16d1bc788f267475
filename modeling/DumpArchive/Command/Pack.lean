import DumpArchive.Command.Arguments
import DumpArchive.Command.Outcome
import DumpArchive.Json.Check
import DumpArchive.Text.Space

/-! Packing a directory of databases into an archive. Each database is a directory, and each
collection a file of records in it, with an optional description beside it. -/
namespace DumpArchive.Command.Pack

def defaultMetadata : String := "\x7b\"indexes\":[]\x7d"

/-- A collection that was found. -/
structure Found where
  ns : Namespace
  path : String
  metadata : String
  size : UInt64

/-- The collection whose records a file with this name holds. -/
def collection? (name : String) : Option String :=
  let stem := name.toList.take (name.length - 5)
  if stem ≠ [] ∧ name.toList = stem ++ ".bson".toList then some (String.ofList stem) else none

def isExcluded (args : PackArgs) (collection : String) : Bool :=
  collection ∈ args.excluded
    || args.excludedStarts.any fun start => start.toList.isPrefixOf collection.toList

def notUtf8 : IoError := ⟨.invalidData, "stream did not contain valid UTF-8"⟩

/-- The description at a path; a missing file stands for the default one. -/
def readMetadata (t : Tree) (path : String) : Except Failure String :=
  match t.content path with
  | .error .notFound => .ok defaultMetadata
  | .error fault => .error (.ofIoError ("read " ++ path) fault.error)
  | .ok content => match content.toText? with
    | none => .error (.ofIoError ("read " ++ path) notUtf8)
    | some text =>
      if Json.accepts text then .ok (Text.trim text)
      else .error ⟨.dataInvalid, path ++ " is not valid JSON"⟩

/-- The collection behind one name in the directory of a database, if it is one. -/
def examine (t : Tree) (args : PackArgs) (db name : String) : Except Failure (Option Found) :=
  let directory := Path.join args.directory db
  match collection? name, t.find (Path.join directory name) with
  | some collection, .ok (.file content) =>
    if isExcluded args collection then .ok none
    else match readMetadata t (Path.join directory (collection ++ ".metadata.json")) with
      | .error failure => .error failure
      | .ok metadata =>
        let ns : Namespace := ⟨db, collection⟩
        match Path.data args.directory ns with
        | .error e => .error (.ofEngineError "pack" e)
        | .ok path => .ok (some ⟨ns, path, metadata, content.length.toUInt64⟩)
  | _, _ => .ok none

def listDirectory (t : Tree) (path : String) : Except Failure (List String) :=
  match t.list path with
  | .error fault => .error (.ofIoError ("read directory " ++ path) fault.error)
  | .ok names => .ok names

def examineAll (t : Tree) (args : PackArgs) (db : String) :
    List String → Except Failure (List Found)
  | [] => .ok []
  | name :: rest => match examine t args db name with
    | .error failure => .error failure
    | .ok found => match examineAll t args db rest with
      | .error failure => .error failure
      | .ok more => .ok (found.toList ++ more)

def examineDatabases (t : Tree) (args : PackArgs) : List String → Except Failure (List Found)
  | [] => .ok []
  | db :: rest =>
    let directory := Path.join args.directory db
    if t.isDirectory directory then
      match listDirectory t directory with
      | .error failure => .error failure
      | .ok names => match examineAll t args db names with
        | .error failure => .error failure
        | .ok found => match examineDatabases t args rest with
          | .error failure => .error failure
          | .ok more => .ok (found ++ more)
    else examineDatabases t args rest

/-- All collections below the directory, by database and name. -/
def collect (t : Tree) (args : PackArgs) : Except Failure (List Found) :=
  match listDirectory t args.directory with
  | .error failure => .error failure
  | .ok databases => examineDatabases t args databases

def intent (t : Tree) (f : Found) : Dump.Intent where
  ns := f.ns
  metadata := f.metadata
  size := f.size
  origin := match t.openFile f.path with
    | .ok source => .opens source
    | .error fault => .refuses fault.error

/-- The result of a dump of what was found, and the bytes that it wrote. -/
def dump (t : Tree) (args : PackArgs) (found : List Found) : Except Failure Summary × Bytes :=
  match Dump.write .default args.concurrency (found.map (intent t)) .empty with
  | (.error e, writer) => (.error (.ofEngineError "pack failed" e), writer.sink.accepted)
  | (.ok summary, writer) => (.ok summary, writer.sink.accepted)

def report (format : OutputFormat) (args : PackArgs) (s : Summary) : Bytes :=
  Bytes.ofText (Report.summary format (Report.schema "pack-summary") args.archive s)

/-- On standard output the archive stands alone and the report goes to standard error. -/
def toStandard (format : OutputFormat) (args : PackArgs) (t : Tree) (found : List Found) :
    Outcome :=
  match dump t args found with
  | (.error failure, written) => ⟨t, written, [], some failure⟩
  | (.ok summary, written) => ⟨t, written, report format args summary, none⟩

/-- A file that could not be completed is removed. -/
def toFile (format : OutputFormat) (args : PackArgs) (t : Tree) (found : List Found) : Outcome :=
  match t.writeFile args.archive [] with
  | (.error fault, t) => .failed t (.ofIoError ("create " ++ args.archive) fault.error)
  | (.ok (), t) => match dump t args found with
    | (.error failure, _) => .failed (t.removeFile args.archive) failure
    | (.ok summary, written) =>
      ⟨(t.writeFile args.archive written).2, report format args summary, [], none⟩

def run (format : OutputFormat) (args : PackArgs) (s : Setting) : Outcome :=
  if args.concurrency = 0 then .failed s.tree ⟨.usage, "--concurrency must be at least 1"⟩
  else match collect s.tree args with
    | .error failure => .failed s.tree failure
    | .ok found =>
      if args.archive = standard then toStandard format args s.tree found
      else toFile format args s.tree found

end DumpArchive.Command.Pack
