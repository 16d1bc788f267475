import DumpArchive.Bytes
import DumpArchive.Error

/-! Records and block delimiters. A record starts with its own length in four bytes and ends
in a zero byte; a delimiter is the length minus one. Lengths are signed, and so is the limit
they are compared with: a limit of `2 ^ 63` or more, read as a signed word, admits no record. -/
namespace DumpArchive

inductive Token where
  | delimiter
  | record (bytes : Bytes)
  deriving DecidableEq, Repr

def Token.delimiterBytes : Bytes := [0xFF, 0xFF, 0xFF, 0xFF]

def Token.bytes : Token → Bytes
  | .delimiter => delimiterBytes
  | .record b => b

/-- What the four bytes of a length announce. -/
inductive Lead where
  | delimiter
  | record (size : Nat)
  deriving DecidableEq, Repr

namespace Record

/-- Four bytes of length and the final zero. -/
def minSize : Nat := 5

def defaultMax : UInt64 := 16777216

/-- The limit as lengths are compared with it. -/
def signedMax (max : UInt64) : Int := max.toInt64.toInt

/-- Fails with the number that is neither. -/
def classify (four : Bytes) (max : UInt64) : Except Int Lead :=
  let size := four.toInt
  if size = -1 then .ok .delimiter
  else if size < minSize ∨ signedMax max < size then .error size
  else .ok (.record size.toNat)

/-- Whether some bytes are exactly one record within the limit. -/
def check (record : Bytes) (max : UInt64) : Except FrameError Unit :=
  let size := record.length
  let declared := Bytes.toInt (record.take 4)
  if max.toNat < size then .error (.recordTooLarge size max)
  else if size < minSize then .error (.invalidRecord (.tooShort size))
  else if declared ≠ size then .error (.invalidRecord (.lengthMismatch declared size))
  else if record.getLast? ≠ some 0 then .error (.invalidRecord .unterminated)
  else .ok ()

end Record
end DumpArchive
