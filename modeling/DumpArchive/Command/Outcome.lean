import DumpArchive.Bytes
import DumpArchive.Failure
import DumpArchive.Restore
import DumpArchive.Stream.Buffer
import DumpArchive.Tree

/-! What a command works on and what it leaves behind. -/
namespace DumpArchive.Command

structure Setting where
  tree : Tree
  stdin : Bytes

structure Outcome where
  tree : Tree
  stdout : Bytes
  stderr : Bytes
  failure : Option Failure

namespace Outcome

def failed (tree : Tree) (failure : Failure) : Outcome := ⟨tree, [], [], some failure⟩

def printed (tree : Tree) (text : String) : Outcome := ⟨tree, Bytes.ofText text, [], none⟩

def exitCode (o : Outcome) : ExitCode :=
  match o.failure with
  | some failure => failure.code
  | none => .success

end Outcome

/-- The archive argument that means standard input or output. -/
def standard : String := "-"

def openSource (s : Setting) (archive : String) : Except Failure Source :=
  if archive = standard then .ok (.ofBytes s.stdin)
  else match s.tree.openFile archive with
    | .error fault => .error (.ofIoError ("open " ++ archive) fault.error)
    | .ok source => .ok source

/-- Opens an archive as far as its catalog. -/
def openArchive (s : Setting) (archive : String) : Except Failure Restore.Archive :=
  match openSource s archive with
  | .error failure => .error failure
  | .ok source => match (Restore.openArchive source Record.defaultMax none).1 with
    | .error e => .error (.ofFrameError "open archive" e)
    | .ok archive => .ok archive

/-- How much is asked for at a time when tokens are read. -/
def requests (max : UInt64) : Nat → Bytes → List Nat
  | 0, _ => []
  | fuel + 1, bytes =>
    if bytes = [] then []
    else match Record.classify (bytes.take 4) max with
      | .ok (.record size) => 4 :: (size - 4) :: requests max fuel (bytes.drop size)
      | _ => 4 :: requests max fuel (bytes.drop 4)

/-- How many bytes of an archive file its buffer has taken in when the catalog has been read, which
is the first `taken` bytes. -/
def fetched (content : Bytes) (taken : Nat) : Nat :=
  let sizes := 4 :: requests Record.defaultMax taken ((content.take taken).drop 4)
  (sizes.foldl (Buffer.request content.length) .empty).fetched

/-- An archive that was opened in one tree and is read on in another. What the buffer holds is read
first; behind that, the file is read as it is by then. -/
def readOn (s : Setting) (archive : String) (t : Tree) (a : Restore.Archive) : Restore.Archive :=
  if archive = standard then a
  else match s.tree.locate archive with
    | .error _ => a
    | .ok place => match s.tree.lookup place, t.lookup place with
      | some (.file before), some (.file after) =>
        let source := a.reader.source
        let taken := before.length - source.pending.length
        let held := fetched before taken - taken
        let pending := source.pending.take held ++ after.drop (taken + held)
        { a with reader := { a.reader with source := { source with pending } } }
      | _, _ => a

end DumpArchive.Command
