import DumpArchive.Error

/-! How a command fails: an exit code that scripts can rely on and a message. -/
namespace DumpArchive

inductive ExitCode where
  | success
  | failure
  | permissionDenied
  | dataInvalid
  | usage
  | internal
  deriving DecidableEq, Repr

def ExitCode.number : ExitCode → Nat
  | .success => 0
  | .failure => 1
  | .permissionDenied => 50
  | .dataInvalid => 60
  | .usage => 64
  | .internal => 125

structure Failure where
  code : ExitCode
  message : String
  deriving DecidableEq, Repr

namespace Failure

def ofKind : IoKind → ExitCode
  | .permissionDenied => .permissionDenied
  | .notFound | .brokenPipe => .failure
  | .invalidData => .dataInvalid
  | .interrupted | .other => .internal

def inContext (context text : String) : String := context ++ ": " ++ text

def ofIoError (context : String) (e : IoError) : Failure :=
  ⟨ofKind e.kind, inContext context e.text⟩

/-- A stream error is reported as such, without mention of the archive. -/
def ofFrameError (context : String) (e : FrameError) : Failure :=
  match e with
  | .io error => ofIoError context error
  | .notAnArchive _ | .corrupt .. | .recordTooLarge .. | .invalidRecord _ =>
    ⟨.dataInvalid, inContext context e.message⟩
  | .duplicateNamespace _ => ⟨.usage, inContext context e.message⟩

def ofEngineError (context : String) (e : EngineError) : Failure :=
  match e with
  | .frame error => ofFrameError context error
  | .io _ error => ⟨ofKind error.kind, inContext context e.message⟩
  | .inUse _ | .alreadyClosed _ | .unknown _ | .invalid _ | .tooMany _ =>
    ⟨.usage, inContext context e.message⟩
  | .consumerGone _ => ⟨.failure, inContext context e.message⟩
  | .finished _ | .engineGone _ | .workerCrashed _ => ⟨.internal, inContext context e.message⟩

end Failure
end DumpArchive
