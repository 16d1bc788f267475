import DumpArchive.Command.Pack
import DumpArchive.Command.Unpack

/-! The commands. -/
namespace DumpArchive.Command

def inspect (format : OutputFormat) (archive : String) (s : Setting) : Outcome :=
  match openArchive s archive with
  | .error failure => .failed s.tree failure
  | .ok opened => .printed s.tree (Report.catalog format archive opened.catalog)

def verify (format : OutputFormat) (archive : String) (s : Setting) : Outcome :=
  match openArchive s archive with
  | .error failure => .failed s.tree failure
  | .ok opened => match Restore.verify opened with
    | .error e => .failed s.tree (.ofEngineError "verify failed" e)
    | .ok summary =>
      .printed s.tree (Report.summary format (Report.schema "verify-summary") archive summary)

def versionLine : String := "archivemux 0.1.0\n"

def Invocation.run (i : Invocation) (s : Setting) : Outcome :=
  match i.action with
  | .pack args => Pack.run i.format args s
  | .unpack args => Unpack.run i.format args s
  | .inspect archive => inspect i.format archive s
  | .verify archive => verify i.format archive s
  | .version => .printed s.tree versionLine

end DumpArchive.Command
