import DumpArchive.Record
import DumpArchive.Stream.Sink

/-! Writing the magic number, records and delimiters. A record is checked before any byte of it
reaches the sink, and `written` counts the items that were written completely. -/
namespace DumpArchive.Token

/-- The magic number that opens every archive. -/
def magic : UInt32 := 0x6DE9818B

def magicBytes : Bytes := Bytes.word magic.toNat

structure Writer where
  sink : Sink
  max : UInt64
  /-- The bytes of whole items. The sink has accepted no fewer, so a word of 64 bits would do. -/
  written : Nat

namespace Writer

def start (sink : Sink) (max : UInt64) : Writer := ⟨sink, max, 0⟩

/-- The error of a sink that takes nothing. -/
def stuck : IoError := ⟨.other, "write zero"⟩

/-- One item, whole or not counted. -/
def put (item : Bytes) (w : Writer) : Except FrameError Unit × Writer :=
  match w.sink.writeAll stuck item with
  | (.error e, sink) => (.error (.io e), { w with sink })
  | (.ok (), sink) => (.ok (), { w with sink, written := w.written + item.length })

def writeMagic (w : Writer) : Except FrameError Unit × Writer := w.put magicBytes

def writeToken (t : Token) (w : Writer) : Except FrameError Unit × Writer :=
  match t with
  | .delimiter => w.put delimiterBytes
  | .record bytes => match Record.check bytes w.max with
    | .error e => (.error e, w)
    | .ok () => w.put bytes

/-- Stops at the first token that fails. -/
def writeTokens : List Token → Writer → Except FrameError Unit × Writer
  | [], w => (.ok (), w)
  | t :: rest, w => match w.writeToken t with
    | (.error e, w) => (.error e, w)
    | (.ok (), w) => writeTokens rest w

/-- Repeats an interrupted flush. -/
def flush (w : Writer) : Except FrameError Unit × Writer :=
  match w.sink.flushAgain with
  | (.error e, sink) => (.error (.io e), { w with sink })
  | (.ok (), sink) => (.ok (), { w with sink })

end Writer
end DumpArchive.Token
