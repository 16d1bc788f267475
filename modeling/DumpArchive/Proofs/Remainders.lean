import DumpArchive.Proofs.Tallies
import Mathlib

/-! The checksum as a remainder. The bits of a byte string are the coefficients of a polynomial over
the field of two elements, and its checksum is what is left of it on division by the generator. So
the checksum depends on the bytes alone, and not on the records that they are counted in. -/
namespace DumpArchive

namespace Checksum

open Polynomial

/-- The low bits of a number as coefficients, the lowest bit with the highest power. -/
noncomputable def coefficients : Nat → Nat → (ZMod 2)[X]
  | 0, _ => 0
  | width + 1, n => (if n.testBit 0 then X ^ width else 0) + coefficients width (n / 2)

/-- The bits of a byte string as coefficients. They go low bit first in each byte, and the first bit
has the highest power. -/
noncomputable def message : Bytes → (ZMod 2)[X]
  | [] => 0
  | b :: rest => coefficients 8 b.toNat * X ^ (8 * rest.length) + message rest

/-- The divisor of CRC-32. -/
noncomputable def generator : (ZMod 2)[X] :=
  X ^ 32 + X ^ 26 + X ^ 23 + X ^ 22 + X ^ 16 + X ^ 12 + X ^ 11 + X ^ 10 + X ^ 8 + X ^ 7 + X ^ 5 +
    X ^ 4 + X ^ 2 + X + 1

/-- What is added to invert 32 bits. -/
noncomputable def ones : (ZMod 2)[X] := ∑ i ∈ Finset.range 32, X ^ i

/-- The division that defines CRC-32. The message is followed by 32 zeros, the first 32 of all these
bits are inverted, and the remainder is inverted in turn. -/
def Certifies (sum : UInt32) (b : Bytes) : Prop :=
  coefficients 32 sum.toNat =
    (ones * X ^ (8 * b.length) + message b * X ^ 32) %ₘ generator + ones

theorem coefficients_xor (width a b : Nat) :
    coefficients width (a ^^^ b) = coefficients width a + coefficients width b := by
  induction width generalizing a b with
  | zero => simp [coefficients]
  | succ width ih =>
    have half : (a ^^^ b) / 2 = a / 2 ^^^ b / 2 := by
      simp only [← Nat.shiftRight_one, Nat.shiftRight_xor_distrib]
    have twice : (X ^ width + X ^ width : (ZMod 2)[X]) = 0 := CharTwo.add_self_eq_zero _
    simp only [coefficients, half, ih, Nat.testBit_xor]
    cases a.testBit 0 <;> cases b.testBit 0
    · simp
    · simp [add_left_comm]
    · simp [add_assoc]
    · simp only [bne_self_eq_false, Bool.false_eq_true, if_false, if_true]
      linear_combination -twice

theorem coefficients_zero (width : Nat) : coefficients width 0 = 0 := by
  induction width with
  | zero => rfl
  | succ width ih => simpa [coefficients] using ih

/-- A number that needs fewer bits ends in zeros. -/
theorem coefficients_add {width n : Nat} (small : n < 2 ^ width) (zeros : Nat) :
    coefficients (width + zeros) n = coefficients width n * X ^ zeros := by
  induction width generalizing n with
  | zero =>
    obtain rfl : n = 0 := by omega
    rw [coefficients_zero, coefficients_zero, zero_mul]
  | succ width ih =>
    have half : n / 2 < 2 ^ width := by omega
    rw [Nat.add_right_comm, coefficients, coefficients, ih half, add_mul, ite_mul, zero_mul,
      pow_add]

theorem degree_coefficients_lt (width n : Nat) : (coefficients width n).degree < width := by
  induction width generalizing n with
  | zero => simp [coefficients]
  | succ width ih =>
    have below : (coefficients width (n / 2)).degree < (width + 1 : Nat) :=
      (ih _).trans (by exact_mod_cast Nat.lt_succ_self width)
    rw [coefficients]
    refine (degree_add_le _ _).trans_lt (max_lt ?_ below)
    split
    · rw [degree_X_pow]
      exact_mod_cast Nat.lt_succ_self width
    · simp

/-- The bits are told by the coefficients. -/
theorem coefficients_inj {width a b : Nat} (first : a < 2 ^ width) (second : b < 2 ^ width)
    (same : coefficients width a = coefficients width b) : a = b := by
  induction width generalizing a b with
  | zero => omega
  | succ width ih =>
    have leading (n : Nat) :
        (coefficients (width + 1) n).coeff width = if n.testBit 0 then 1 else 0 := by
      rw [coefficients, coeff_add, coeff_eq_zero_of_degree_lt (degree_coefficients_lt _ _)]
      split <;> simp
    have low : a.testBit 0 = b.testBit 0 := by
      have tops := leading a
      rw [same, leading b] at tops
      cases ha : a.testBit 0 <;> cases hb : b.testBit 0 <;> simp_all
    rw [coefficients, coefficients, low, add_right_inj] at same
    have high := ih (by omega) (by omega) same
    rw [Nat.testBit_zero, Nat.testBit_zero, decide_eq_decide] at low
    omega

theorem coefficients_full (width : Nat) :
    coefficients width (2 ^ width - 1) = ∑ i ∈ Finset.range width, X ^ i := by
  induction width with
  | zero => simp [coefficients]
  | succ width ih =>
    have positive := Nat.two_pow_pos width
    have low : (2 ^ (width + 1) - 1).testBit 0 := by
      rw [Nat.testBit_zero, decide_eq_true_iff]
      omega
    have half : (2 ^ (width + 1) - 1) / 2 = 2 ^ width - 1 := by omega
    rw [coefficients, if_pos low, half, ih, Finset.sum_range_succ_comm]

theorem generator_eq : generator = X ^ 32 + coefficients 32 0xEDB88320 := by
  simp [coefficients, generator, add_assoc]

theorem monic_generator : generator.Monic :=
  generator_eq ▸ monic_X_pow_add (degree_coefficients_lt _ _)

theorem degree_generator : generator.degree = 32 := by
  have below : (coefficients 32 0xEDB88320).degree < (X ^ 32 : (ZMod 2)[X]).degree := by
    rw [degree_X_pow]
    exact degree_coefficients_lt 32 _
  rw [generator_eq, degree_add_eq_left_of_degree_lt below, degree_X_pow]
  rfl

/-- A turn of the register multiplies by the variable. -/
theorem coefficients_shift (r : UInt32) :
    X * coefficients 32 r.toNat =
      coefficients 32 (shift r).toNat + if r.toNat.testBit 0 then generator else 0 := by
  have small : r.toNat / 2 < 2 ^ 31 := by
    have := r.toNat_lt
    omega
  have half : (r >>> 1).toNat = r.toNat / 2 := by
    rw [UInt32.toNat_shiftRight]
    exact Nat.shiftRight_one _
  have low : r &&& 1 = 1 ↔ r.toNat.testBit 0 := by
    rw [← UInt32.toNat_inj, UInt32.toNat_and, Nat.testBit_zero, decide_eq_true_iff]
    exact Nat.and_one_is_mod r.toNat ▸ Iff.rfl
  have moved : X * coefficients 32 r.toNat =
      (if r.toNat.testBit 0 then X ^ 32 else 0) + coefficients 32 (r.toNat / 2) := by
    rw [coefficients, coefficients_add small 1, mul_add, mul_ite, mul_zero, ← pow_succ', pow_one,
      mul_comm X]
  have twice : coefficients 32 0xEDB88320 + coefficients 32 0xEDB88320 = 0 :=
    CharTwo.add_self_eq_zero _
  rw [moved, shift]
  by_cases set : r.toNat.testBit 0
  · rw [if_pos (low.2 set), if_pos set, if_pos set, UInt32.toNat_xor, coefficients_xor, half]
    have feedback : coefficients 32 (0xEDB88320 : UInt32).toNat = coefficients 32 0xEDB88320 := rfl
    rw [feedback, generator_eq]
    linear_combination -twice
  · rw [if_neg (mt low.1 set), if_neg set, if_neg set, half, zero_add, add_zero]

/-- A polynomial by its remainder. -/
noncomputable abbrev residue : (ZMod 2)[X] →+* AdjoinRoot generator := AdjoinRoot.mk generator

theorem residue_shift (r : UInt32) :
    residue (coefficients 32 (shift r).toNat) = residue X * residue (coefficients 32 r.toNat) := by
  rw [← map_mul, coefficients_shift, map_add]
  split <;> simp

theorem residue_absorb (r : UInt32) (b : UInt8) :
    residue (coefficients 32 (absorb r b).toNat) =
      residue (coefficients 32 r.toNat * X ^ 8 + coefficients 8 b.toNat * X ^ 32) := by
  have byte : coefficients 32 b.toNat = coefficients 8 b.toNat * X ^ 24 :=
    coefficients_add b.toNat_lt 24
  simp only [absorb, residue_shift, UInt32.toNat_xor, UInt8.toNat_toUInt32, coefficients_xor, byte,
    map_add, map_mul, map_pow]
  ring

/-- The register holds what came before it and the bytes, less a multiple of the generator. -/
theorem residue_foldl (r : UInt32) (b : Bytes) :
    residue (coefficients 32 (b.foldl absorb r).toNat) =
      residue (coefficients 32 r.toNat * X ^ (8 * b.length) + message b * X ^ 32) := by
  induction b generalizing r with
  | nil => simp [message]
  | cons b rest ih =>
    rw [List.foldl_cons, ih, map_add, map_mul, residue_absorb]
    simp only [message, List.length_cons, map_add, map_mul, map_pow]
    ring

theorem coefficients_foldl (r : UInt32) (b : Bytes) :
    coefficients 32 (b.foldl absorb r).toNat =
      (coefficients 32 r.toNat * X ^ (8 * b.length) + message b * X ^ 32) %ₘ generator := by
  have short : (coefficients 32 (b.foldl absorb r).toNat).degree < generator.degree := by
    rw [degree_generator]
    exact degree_coefficients_lt 32 _
  rw [← (modByMonic_eq_self_iff monic_generator).2 short]
  exact modByMonic_eq_of_dvd_sub monic_generator (AdjoinRoot.mk_eq_mk.1 (residue_foldl r b))

theorem certifies_iff {sum : UInt32} {b : Bytes} : Certifies sum b ↔ sum = ofBytes b := by
  have before : coefficients 32 (0 ^^^ 0xFFFFFFFF : UInt32).toNat = ones := coefficients_full 32
  have after : coefficients 32 (0xFFFFFFFF : UInt32).toNat = ones := coefficients_full 32
  have made : coefficients 32 (ofBytes b).toNat =
      (ones * X ^ (8 * b.length) + message b * X ^ 32) %ₘ generator + ones := by
    rw [ofBytes, continued, UInt32.toNat_xor, coefficients_xor, coefficients_foldl, before, after]
  rw [Certifies, ← made]
  constructor
  · intro same
    exact UInt32.toNat_inj.1 (coefficients_inj sum.toNat_lt (ofBytes b).toNat_lt same)
  · rintro rfl
    rfl

end Checksum

namespace Tally

theorem foldl_count (records : List Bytes) : records.foldl count zero = ofRecords records := by
  induction records using List.reverseRecOn with
  | nil => rfl
  | append_singleton front record ih => rw [List.foldl_concat, ih, ofRecords_concat]

/-- Records counted one after another come to their number, their bytes and the CRC-32 of all of
them in a row, wherever one record ends and the next begins. -/
theorem counted_exactly (records : List Bytes) (few : records.length < 2 ^ 64)
    (short : records.flatten.length < 2 ^ 64) :
    (records.foldl count zero).records.toNat = records.length ∧
      (records.foldl count zero).bytes.toNat = records.flatten.length ∧
      (records.foldl count zero).crc = Checksum.ofBytes records.flatten ∧
      (∀ sum, Checksum.Certifies sum records.flatten ↔ sum = (records.foldl count zero).crc) ∧
      ∀ others : List Bytes, others.flatten = records.flatten →
        (others.foldl count zero).crc = (records.foldl count zero).crc := by
  simp only [foldl_count, ofRecords]
  refine ⟨?_, ?_, trivial, fun sum => Checksum.certifies_iff, fun others same => by rw [same]⟩
  · rw [UInt64.toNat_ofNat', Nat.mod_eq_of_lt few]
  · rw [UInt64.toNat_ofNat', Nat.mod_eq_of_lt short]

/-- The usual test of a CRC-32: nine digits, cut into three records and in one. -/
theorem counted_exactly_nine_digits :
    let records : List Bytes := [[0x31, 0x32, 0x33, 0x34], [], [0x35, 0x36, 0x37, 0x38, 0x39]]
    let whole : List Bytes := [Bytes.ofText "123456789"]
    records.length < 2 ^ 64 ∧ records.flatten.length < 2 ^ 64 ∧
      records.foldl count zero = ⟨3, 9, 0xCBF43926⟩ ∧
      Checksum.Certifies 0xCBF43926 (Bytes.ofText "123456789") ∧
      whole.flatten = records.flatten ∧ (whole.foldl count zero).crc = 0xCBF43926 := by
  intro records whole
  have crc : (records.foldl count zero).crc = 0xCBF43926 := by decide +kernel
  have same : whole.flatten = records.flatten := rfl
  obtain ⟨number, bytes, -, certified, cut⟩ := counted_exactly records (by decide) (by decide)
  refine ⟨by decide, by decide, ?_, (certified _).2 crc.symm, same, (cut whole same).trans crc⟩
  rw [show records.foldl count zero = ⟨_, _, _⟩ from rfl, mk.injEq]
  exact ⟨UInt64.toNat_inj.1 number, UInt64.toNat_inj.1 bytes, crc⟩

end Tally
end DumpArchive
