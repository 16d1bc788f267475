import DumpArchive.Command

/-! The program: loads what an invocation touches, runs it and carries out what it changed. -/
namespace DumpArchive.Main

open Command (Action Invocation Outcome)

/-- The paths that an action touches, and how many levels of directories below each. -/
def touched : Action → List (String × Nat)
  | .pack args => [(args.directory, 2), (args.archive, 0)]
  | .unpack args => [(args.archive, 0), (args.out, 2)]
  | .inspect archive | .verify archive => [(archive, 0)]
  | .version => []

def readsStandardInput : Action → Bool
  | .unpack args => args.archive = Command.standard
  | .inspect archive | .verify archive => archive = Command.standard
  | _ => false

/-- The path itself and all shorter ones on the way to it, the shortest first. -/
def approach (path : String) : List String :=
  let steps := Path.steps path
  let start := if Path.isAbsolute path then "/" else ""
  (List.range steps.length).map fun n => start ++ String.intercalate "/" (steps.take (n + 1))

def look (path : String) : IO (Option Node) := do
  match ← (IO.FS.realPath path).toBaseIO with
  | .error _ => return none
  | .ok real =>
    if !(← real.pathExists) then return none
    else if ← real.isDir then return some .directory
    else return some (.file (← IO.FS.readBinFile real).toList)

/-- Adds what a path leads to, and what lies in a directory down to some depth. -/
def load (path : String) (depth : Nat) (t : Tree) : IO Tree := do
  match ← look path, t.locate path with
  | some node, .ok place =>
    let t := t.put place node
    match depth, node with
    | depth + 1, .directory =>
      let entries ← (← IO.FS.realPath path).readDir
      entries.foldlM (fun t entry => load (Path.join path entry.fileName) depth t) t
    | _, _ => return t
  | _, _ => return t

def loadAll (action : Action) : IO Tree := do
  let here := Path.steps (← IO.currentDir).toString
  (touched action).foldlM (fun t (path, depth) => do
    let t ← (approach path).foldlM (fun t path => load path 0 t) t
    load path depth t) (Tree.around here)

def absolute (place : Location) : String := "/" ++ String.intercalate "/" place

/-- Carries out the difference between two trees. -/
def store (before after : Tree) : IO Unit := do
  for (place, node) in after.nodes do
    if before.lookup place ≠ some node then
      match node with
      | .directory => IO.FS.createDirAll (absolute place)
      | .file content => IO.FS.writeBinFile (absolute place) content.toByteArray
  for (place, _) in before.nodes do
    if (after.lookup place).isNone then IO.FS.removeFile (absolute place)

def kind : IO.Error → IoKind
  | .permissionDenied .. => .permissionDenied
  | .noFileOrDirectory .. => .notFound
  | .resourceVanished .. => .brokenPipe
  | _ => .other

def perform (i : Invocation) : IO Outcome := do
  let before ← loadAll i.action
  let stdin ←
    if readsStandardInput i.action then
      pure (← (← IO.getStdin).readBinToEnd).toList
    else pure []
  let outcome := i.run ⟨before, stdin⟩
  store before outcome.tree
  return outcome

/-- Runs an invocation; an error of the system outside the model ends it like any other. -/
def performSafely (i : Invocation) : IO Outcome := do
  try perform i
  catch e => return .failed .empty (.ofIoError "archivemux" ⟨kind e, toString e⟩)

def usage : String :=
  "usage: archivemux [--format json|table|pretty] pack|unpack|inspect|verify|version ..."

end DumpArchive.Main

open DumpArchive in
def main (args : List String) : IO UInt32 := do
  match Command.Arguments.parse? args with
  | none =>
    IO.eprintln Main.usage
    return 2
  | some i =>
    let outcome ← Main.performSafely i
    (← IO.getStdout).write outcome.stdout.toByteArray
    (← IO.getStderr).write outcome.stderr.toByteArray
    match outcome.failure with
    | some failure => IO.eprintln ("error: " ++ failure.message)
    | none => pure ()
    return outcome.exitCode.number.toUInt32
