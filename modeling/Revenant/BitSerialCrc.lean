import Revenant.Crc32
import Revenant.ReflectedCrc

/-!
# CRC-32 a byte at a time and a bit at a time

The table holds what eight shifts make of a byte, so looking a byte up does to the
register what taking in its eight bits does.
-/

namespace Revenant
namespace Crc32

/-- The bits of a message in the order they are taken in, the lowest of each byte first. -/
def messageBits (data : Bytes) : List Bool :=
  data.flatMap fun value => (List.range 8).map value.toBitVec.getLsbD

/-- The reflected CRC-32: a shift register that starts full, takes in every bit of the
message, and is complemented at the end. -/
def bitSerialCrc32 (data : Bytes) : UInt32 :=
  ⟨~~~ReflectedCrc.feedBits 0xEDB88320#32 (BitVec.allOnes 32) (messageBits data)⟩

theorem lowBit_eq (value : UInt32) : value &&& 1 ≠ 0 ↔ value.toBitVec.getLsbD 0 = true := by
  have lowest : value.toBitVec &&& 1#32 = BitVec.setWidth 32 (BitVec.ofBool (value.toBitVec.getLsbD 0)) :=
    BitVec.and_one_eq_setWidth_ofBool_getLsbD
  have bits : (value &&& 1).toBitVec = value.toBitVec &&& 1#32 := UInt32.toBitVec_and value 1
  rw [ne_eq, ← UInt32.toBitVec_inj, bits, lowest]
  cases value.toBitVec.getLsbD 0 <;> decide

theorem shiftOneBit_toBitVec (value : UInt32) :
    (shiftOneBit value).toBitVec = ReflectedCrc.shift 0xEDB88320#32 value.toBitVec := by
  unfold shiftOneBit ReflectedCrc.shift
  by_cases low : value.toBitVec.getLsbD 0 = true
  · rw [if_pos ((lowBit_eq value).mpr low), if_pos low, UInt32.toBitVec_xor,
      BitVec.xor_comm]
    rfl
  · rw [if_neg (mt (lowBit_eq value).mp low), if_neg low]
    rfl

theorem repeat_shiftOneBit (count : Nat) (value : UInt32) :
    (Nat.repeat shiftOneBit count value).toBitVec =
      ReflectedCrc.shifts 0xEDB88320#32 count value.toBitVec := by
  induction count with
  | zero => rfl
  | succ count ih =>
      show (shiftOneBit (Nat.repeat shiftOneBit count value)).toBitVec = _
      rw [shiftOneBit_toBitVec, ih, ReflectedCrc.shifts]

theorem kTable_getD {index : UInt32} (inside : index.toNat < kTableSize) :
    kTable.getD index.toNat 0 = tableEntry index := by
  rw [kTable, List.getD_eq_getElem?_getD, List.getElem?_map, List.getElem?_range inside]
  rw [Option.map_some, Option.getD_some, UInt32.ofNat_toNat]

theorem masks_byte : ReflectedCrc.Masks 8 0xFF#32 := by
  intro place inside
  rw [BitVec.getLsbD_ofNat, Nat.testBit_two_pow_sub_one 8, decide_eq_true inside, Bool.true_and]

/-- A byte has no bits above its eighth. -/
theorem byte_shiftRight (value : UInt8) : value.toUInt32.toBitVec >>> 8 = 0#32 := by
  ext place inside
  rw [BitVec.getElem_ushiftRight, BitVec.getElem_zero, UInt8.toBitVec_toUInt32, BitVec.getLsbD_setWidth,
    BitVec.getLsbD_of_ge value.toBitVec _ (Nat.le_add_right 8 place), Bool.and_false]

theorem byteBits_eq (value : UInt8) :
    (List.range 8).map value.toBitVec.getLsbD = ReflectedCrc.bitsOf 8 value.toUInt32.toBitVec := by
  apply List.map_congr_left
  intro place member
  have inside := List.mem_range.mp member
  rw [UInt8.toBitVec_toUInt32, BitVec.getLsbD_setWidth, decide_eq_true (by omega), Bool.true_and]

/-- One lookup in the table takes in the eight bits of a byte. -/
theorem absorb_toBitVec (crc : UInt32) (value : UInt8) :
    (absorb crc value).toBitVec =
      ReflectedCrc.feedBits 0xEDB88320#32 crc.toBitVec
        ((List.range 8).map value.toBitVec.getLsbD) := by
  have inside : ((crc ^^^ value.toUInt32) &&& 0xFF).toNat < kTableSize := by
    rw [UInt32.toNat_and]
    exact Nat.lt_of_le_of_lt Nat.and_le_right (by decide)
  have looked : (tableEntry ((crc ^^^ value.toUInt32) &&& 0xFF)).toBitVec =
      ReflectedCrc.shifts 0xEDB88320#32 8 ((crc.toBitVec ^^^ value.toUInt32.toBitVec) &&& 0xFF#32) :=
    repeat_shiftOneBit 8 _
  have moved : (crc.toBitVec ^^^ value.toUInt32.toBitVec) >>> 8 = (crc >>> 8).toBitVec := by
    rw [BitVec.ushiftRight_xor_distrib, byte_shiftRight, BitVec.xor_zero]
    rfl
  rw [byteBits_eq, ReflectedCrc.feedBits_bitsOf _ (byte_shiftRight value),
    ReflectedCrc.shifts_eq _ masks_byte, moved, ← looked, absorb, kTable_getD inside,
    UInt32.toBitVec_xor]

theorem foldl_absorb (crc : UInt32) (data : Bytes) :
    (data.foldl absorb crc).toBitVec =
      ReflectedCrc.feedBits 0xEDB88320#32 crc.toBitVec (messageBits data) := by
  induction data generalizing crc with
  | nil => rfl
  | cons value data ih =>
      have bits : messageBits (value :: data) =
          (List.range 8).map value.toBitVec.getLsbD ++ messageBits data := List.flatMap_cons
      rw [List.foldl_cons, ih, absorb_toBitVec, bits, ReflectedCrc.feedBits_append]

/-- The checksum by the table is the one a bit at a time. -/
theorem crc32_eq_bitSerial (data : Bytes) : crc32 data = bitSerialCrc32 data := by
  apply UInt32.toBitVec_inj.mp
  have full : kInitial.toBitVec = BitVec.allOnes 32 := by decide
  rw [crc32, UInt32.toBitVec_xor, foldl_absorb, full, BitVec.xor_allOnes]
  rfl

end Crc32
end Revenant
