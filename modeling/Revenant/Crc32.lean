import Revenant.CoreValues

/-!
# CRC-32

The reflected IEEE 802.3 checksum, computed a byte at a time from a table of the
remainders of single bytes.
-/

namespace Revenant
namespace Crc32

def kPolynomial : UInt32 := 0xEDB88320

def kInitial : UInt32 := 0xFFFFFFFF

def kTableSize : Nat := 256

def kBitsPerByte : Nat := 8

def shiftOneBit (value : UInt32) : UInt32 :=
  if value &&& 1 ≠ 0 then kPolynomial ^^^ (value >>> 1) else value >>> 1

def tableEntry (index : UInt32) : UInt32 := Nat.repeat shiftOneBit kBitsPerByte index

def kTable : List UInt32 := (List.range kTableSize).map fun index => tableEntry (UInt32.ofNat index)

def absorb (crc : UInt32) (value : UInt8) : UInt32 :=
  kTable.getD ((crc ^^^ value.toUInt32) &&& 0xFF).toNat 0 ^^^ (crc >>> 8)

def crc32 (data : Bytes) : UInt32 := data.foldl absorb kInitial ^^^ kInitial

/-- The check value of the algorithm. -/
example : crc32 (ascii "123456789") = 0xCBF43926 := by decide +kernel

end Crc32
end Revenant
