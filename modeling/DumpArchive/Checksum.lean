import DumpArchive.Bytes

/-! The CRC-32 of a byte string, which can be continued from a finished value. -/
namespace DumpArchive.Checksum

/-- One bit through the shift register of the reflected polynomial. -/
def shift (r : UInt32) : UInt32 :=
  if r &&& 1 = 1 then (r >>> 1) ^^^ 0xEDB88320 else r >>> 1

/-- One byte, low bit first. -/
def absorb (r : UInt32) (b : UInt8) : UInt32 :=
  shift (shift (shift (shift (shift (shift (shift (shift (r ^^^ b.toUInt32))))))))

/-- The checksum of some bytes after others whose checksum is known. The register starts
and ends inverted, so a finished value is inverted once more to go on. -/
def continued (sum : UInt32) (b : Bytes) : UInt32 :=
  (b.foldl absorb (sum ^^^ 0xFFFFFFFF)) ^^^ 0xFFFFFFFF

def ofBytes (b : Bytes) : UInt32 := continued 0 b

end DumpArchive.Checksum
