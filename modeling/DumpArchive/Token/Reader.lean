import DumpArchive.Record
import DumpArchive.Stream.Source

/-! Reading tokens from a stream. A reader takes no byte beyond the token that it reads, and
its offset counts the bytes of calls that were answered. -/
namespace DumpArchive.Token

structure Reader where
  source : Source
  max : UInt64
  /-- The bytes that have been read. The stream has no fewer, so a word of 64 bits would do. -/
  offset : Nat

namespace Reader

def start (source : Source) (max : UInt64) : Reader := ⟨source, max, 0⟩

/-- Bytes that the stream has not delivered yet. -/
def remaining (r : Reader) : Nat := r.source.pending.length

/-- Bytes outside the token grammar; short only at the end of the input. -/
def readRaw (n : Nat) (r : Reader) : Except FrameError Bytes × Reader :=
  match r.source.fill n with
  | (.error e, source) => (.error (.io e), { r with source })
  | (.ok bytes, source) => (.ok bytes, { r with source, offset := r.offset + bytes.length })

/-- The four bytes of a length and what they announce; nothing at the end of the input. -/
def readLead (r : Reader) : Except FrameError (Option (Bytes × Lead)) × Reader :=
  match r.readRaw 4 with
  | (.error e, next) => (.error e, next)
  | (.ok four, next) =>
    if four = [] then (.ok none, next)
    else if four.length < 4 then (.error (.corrupt r.offset (.cutLength four.length)), next)
    else match Record.classify four r.max with
      | .error size => (.error (.corrupt r.offset (.badLength size)), next)
      | .ok lead => (.ok (some (four, lead)), next)

/-- The rest of a record of `size` bytes that began at `start` with the bytes `four`. -/
def readBody (start : Nat) (four : Bytes) (size : Nat) (r : Reader) :
    Except FrameError Bytes × Reader :=
  match r.readRaw (size - 4) with
  | (.error e, next) => (.error e, next)
  | (.ok body, next) =>
    let read := 4 + body.length
    if read < size then (.error (.corrupt start (.cutRecord size read)), next)
    else if body.getLast? ≠ some 0 then (.error (.corrupt start (.unterminated size)), next)
    else (.ok (four ++ body), next)

/-- The next token; nothing when the input ends before the first byte of a length. -/
def readToken (r : Reader) : Except FrameError (Option Token) × Reader :=
  match r.readLead with
  | (.error e, next) => (.error e, next)
  | (.ok none, next) => (.ok none, next)
  | (.ok (some (_, .delimiter)), next) => (.ok (some .delimiter), next)
  | (.ok (some (four, .record size)), next) =>
    match next.readBody r.offset four size with
    | (.error e, next) => (.error e, next)
    | (.ok bytes, next) => (.ok (some (.record bytes)), next)

/-- The next record of a stream that has no delimiters. -/
def nextRecord (r : Reader) : Except FrameError (Option Bytes) × Reader :=
  match r.readToken with
  | (.error e, next) => (.error e, next)
  | (.ok none, next) => (.ok none, next)
  | (.ok (some (.record bytes)), next) => (.ok (some bytes), next)
  | (.ok (some .delimiter), next) => (.error (.corrupt r.offset .strayDelimiter), next)

end Reader
end DumpArchive.Token
