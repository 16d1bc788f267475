import DumpArchive.Hex
import DumpArchive.Stream.Schedule

/-! What can go wrong with an archive, and the one wording of each cause. Namespaces stand in
errors by their text form. -/
namespace DumpArchive

/-- Why some bytes are not one record. -/
inductive RecordFault where
  | tooShort (size : Nat)
  | lengthMismatch (declared : Int) (size : Nat)
  | unterminated
  | described (text : String)
  deriving DecidableEq, Repr

/-- How a stream breaks the archive grammar. -/
inductive Defect where
  | badLength (size : Int)
  | cutLength (read : Nat)
  | cutRecord (size read : Nat)
  | unterminated (size : Nat)
  | strayDelimiter
  | emptyBlock
  | openBlock
  | noPrelude
  | notArchiveHeader
  | notCatalogEntry
  | unnamedEntry
  | repeatedEntry (ns : String)
  | notCollectionHeader
  | unnamedHeader (ns : String)
  | unregisteredHeader (ns : String)
  | orphanRecord
  | unfinished (names : List String)
  | described (text : String)
  deriving DecidableEq, Repr

inductive FrameError where
  | notAnArchive (found : UInt32)
  | corrupt (offset : Nat) (defect : Defect)
  | recordTooLarge (size : Nat) (max : UInt64)
  | invalidRecord (fault : RecordFault)
  | duplicateNamespace (ns : String)
  | io (error : IoError)
  deriving DecidableEq, Repr

/-- Errors of the engines and of whole-archive operations. -/
inductive EngineError where
  | frame (error : FrameError)
  | io (ns : String) (error : IoError)
  | inUse (ns : String)
  | alreadyClosed (ns : String)
  | unknown (ns : String)
  | invalid (ns : String)
  | tooMany (max : UInt64)
  | finished (ns : String)
  | engineGone (ns : String)
  | consumerGone (ns : String)
  | workerCrashed (worker : String)
  deriving DecidableEq, Repr

def RecordFault.message : RecordFault → String
  | .tooShort size => s!"{size} bytes is shorter than the minimum record"
  | .lengthMismatch declared size =>
    s!"length prefix {declared} does not match buffer length {size}"
  | .unterminated => "record does not end with a null byte"
  | .described text => text

def Defect.message : Defect → String
  | .badLength size => s!"{size} is neither a valid record length nor a block delimiter"
  | .cutLength read => s!"input ended after {read} bytes of a length prefix"
  | .cutRecord size read => s!"input ended inside a {size} byte record ({read} bytes read)"
  | .unterminated size => s!"{size} byte record does not end with a null byte"
  | .strayDelimiter => "unexpected block delimiter in record stream"
  | .emptyBlock => "consecutive delimiters / empty blocks are not allowed"
  | .openBlock => "input ended inside a block (missing delimiter)"
  | .noPrelude => "archive ends before the prelude"
  | .notArchiveHeader => "prelude header is not an archive header"
  | .notCatalogEntry => "prelude entry is not collection metadata"
  | .unnamedEntry => "prelude entry is missing a database or collection"
  | .repeatedEntry ns => s!"namespace {ns} listed twice in prelude"
  | .notCollectionHeader => "invalid collection header"
  | .unnamedHeader ns => s!"collection header has an empty db or collection ('{ns}')"
  | .unregisteredHeader ns => s!"header for unknown or closed namespace {ns}"
  | .orphanRecord => "record before any collection header"
  | .unfinished names =>
    "archive ended with unfinished namespaces: " ++ String.intercalate ", " names
  | .described text => text

def FrameError.message : FrameError → String
  | .notAnArchive found =>
    "stream or file does not appear to be a dump archive (magic 0x"
      ++ Hex.padded 8 found.toNat ++ ")"
  | .corrupt offset defect => s!"corrupt archive at offset {offset}: " ++ defect.message
  | .recordTooLarge size max => s!"record too large ({size} bytes, max {max})"
  | .invalidRecord fault => "invalid record: " ++ fault.message
  | .duplicateNamespace ns => s!"duplicate namespace {ns} in prelude catalog"
  | .io error => "archive I/O error: " ++ error.text

def EngineError.message : EngineError → String
  | .frame error => "frame error: " ++ error.message
  | .io ns error => s!"I/O error on {ns}: " ++ error.text
  | .inUse ns => s!"namespace {ns} is already open"
  | .alreadyClosed ns => s!"namespace {ns} was already closed"
  | .unknown ns => s!"namespace {ns} is not in the archive"
  | .invalid ns => s!"invalid namespace '{ns}'"
  | .tooMany max => s!"too many open namespaces (max {max})"
  | .finished ns => s!"multiplexer is finished; namespace {ns} can no longer be opened"
  | .engineGone ns => s!"engine stopped while {ns} was in flight"
  | .consumerGone ns => s!"consumer for {ns} went away before the namespace ended"
  | .workerCrashed worker => s!"{worker} panicked"

def FrameError.isCorrupt : FrameError → Bool
  | .corrupt .. => true
  | _ => false

def EngineError.isCorrupt : EngineError → Bool
  | .frame error => error.isCorrupt
  | _ => false

end DumpArchive
