import Revenant.CoreValues

/-!
# Byte sources

Every byte source is random access and read only.  A read returns the bytes it
got, which are fewer than asked for only at the end of the device.
-/

namespace Revenant

/-- The single seam through which every byte source is read. -/
structure BlockDevice where
  sizeInBytes : Nat
  sectorSize : Nat
  readAt : (offset bufferSize : Nat) → Result Bytes

/-- A byte range of the source that could not be read. -/
structure BadRange where
  offsetBytes : Nat
  lengthBytes : Nat
deriving DecidableEq, Repr

/-- How many bytes of a request a device of `deviceSize` bytes may service. -/
def clampReadRange (offset bufferSize deviceSize : Nat) : Result Nat :=
  if bufferSize > kMax - offset then .error { code := .kOverflow, offset := offset }
  else if offset ≥ deviceSize ∨ bufferSize = 0 then .ok 0
  else .ok (min bufferSize (deviceSize - offset))

def kDefaultSectorSize : Nat := 512

/-- The contents of an image or a healthy disk.  The operating system addresses
them with signed 64-bit offsets. -/
structure Image where
  bytes : Bytes
  addressable : bytes.length < 2 ^ 63

namespace Image

/-- A device whose native reads never fail. -/
def device (image : Image) : BlockDevice where
  sizeInBytes := image.bytes.length
  sectorSize := kDefaultSectorSize
  readAt offset bufferSize := do
    let want ← clampReadRange offset bufferSize image.bytes.length
    return (image.bytes.drop offset).take want

theorem readAt_eq (image : Image) {offset bufferSize : Nat} (fits : bufferSize ≤ kMax - offset) :
    image.device.readAt offset bufferSize = .ok ((image.bytes.drop offset).take bufferSize) := by
  simp only [device, clampReadRange, Nat.not_lt.mpr fits, if_false]
  split
  case isTrue nothing =>
    rcases nothing with beyond | empty
    · simp [bind, Except.bind, pure, Except.pure, List.drop_eq_nil_of_le beyond]
    · simp [bind, Except.bind, pure, Except.pure, empty]
  case isFalse =>
    simp only [bind, Except.bind, pure, Except.pure]
    congr 1
    rw [List.take_eq_take_iff]
    simp

end Image
end Revenant
