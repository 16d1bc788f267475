/-! Byte strings and the little-endian numbers inside them. -/
namespace DumpArchive

abbrev Bytes := List UInt8

namespace Bytes

/-- The low bytes of a number, least significant first. -/
def ofNat : Nat → Nat → Bytes
  | 0, _ => []
  | width + 1, n => UInt8.ofNat n :: ofNat width (n / 256)

def toNat : Bytes → Nat
  | [] => 0
  | b :: rest => b.toNat + 256 * toNat rest

/-- The four bytes of a count. -/
abbrev word (n : Nat) : Bytes := ofNat 4 n

/-- How many numbers some bytes can hold. -/
def capacity : Nat → Nat
  | 0 => 1
  | width + 1 => 256 * capacity width

/-- The number in two's complement, as wide as there are bytes. -/
def toInt (b : Bytes) : Int :=
  if 2 * b.toNat < capacity b.length then b.toNat else b.toNat - capacity b.length

/-- The UTF-8 form of a text. -/
def ofText (s : String) : Bytes := s.toUTF8.data.toList

/-- The text with this UTF-8 form, if there is one. -/
def toText? (b : Bytes) : Option String := String.fromUTF8? b.toByteArray

/-- Splits off the first bytes, if there are enough. -/
def split? (n : Nat) (b : Bytes) : Option (Bytes × Bytes) :=
  let front := b.take n
  if front.length = n then some (front, b.drop n) else none

/-- The text up to the first zero byte, and what follows it. -/
def splitZero? (b : Bytes) : Option (Bytes × Bytes) :=
  match b.span (· ≠ 0) with
  | (_, []) => none
  | (front, _ :: rest) => some (front, rest)

@[simp] theorem length_ofNat (width n : Nat) : (ofNat width n).length = width := by
  induction width generalizing n with
  | zero => rfl
  | succ width ih => simp [ofNat, ih]

theorem toNat_ofNat (width n : Nat) : (ofNat width n).toNat = n % capacity width := by
  induction width generalizing n with
  | zero => exact (Nat.mod_one n).symm
  | succ width ih =>
    have low : (UInt8.ofNat n).toNat = n % 256 := UInt8.toNat_ofNat'
    rw [ofNat, toNat, ih, low, capacity, Nat.mod_mul]

end Bytes
end DumpArchive
