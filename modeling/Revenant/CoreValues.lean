import Mathlib.Algebra.Order.Ring.Nat
import Mathlib.Tactic.Common

/-!
# The values every layer speaks

Typed errors, the shared verdict scale, device extents and timestamps.  A field
that the program stores as a fixed-width integer is a machine word here; what is
computed from such fields is computed in `Nat`, with every wrap and saturation
of the source written out.
-/

namespace Revenant

/-- The largest 64-bit value, `std::numeric_limits<std::uint64_t>::max()`. -/
def kMax : Nat := 2 ^ 64 - 1

/-- A byte string. -/
abbrev Bytes := List UInt8

/-- The bytes of a literal of the source; all of them are ASCII. -/
def ascii (text : String) : Bytes := text.toList.map fun letter => UInt8.ofNat letter.toNat

/-- `std::to_string`. -/
def decimal (number : Nat) : Bytes :=
  (Nat.toDigits 10 number).map fun digit => UInt8.ofNat digit.toNat

theorem digit_of_mem_decimal {number : Nat} {letter : UInt8} (member : letter ∈ decimal number) :
    0x30 ≤ letter ∧ letter ≤ 0x39 := by
  obtain ⟨digit, found, rfl⟩ := List.mem_map.mp member
  have isDigit := Nat.isDigit_of_mem_toDigits (by decide) (Nat.le_refl 10) found
  rw [Char.isDigit_iff_toNat] at isDigit
  have zero : '0'.toNat = 48 := rfl
  have nine : '9'.toNat = 57 := rfl
  simp only [UInt8.le_iff_toNat_le, UInt8.toNat_ofNat', UInt8.toNat_ofNat]
  omega

/-- Machine-readable failure category. -/
inductive ErrorCode where
  | kOutOfRange
  | kOverflow
  | kInvalidArgument
  | kNotFound
  | kIoFailure
  | kPermissionDenied
  | kNotBlockAddressable
  | kDestinationOnSource
  | kDestinationIdentityUnresolved
  | kSourceLost
  | kStorageExhausted
deriving DecidableEq, Repr

/-- A typed error value.  `offset` and `osCode` stay zero unless the failure has
a device offset or an OS error number to report. -/
structure Error where
  code : ErrorCode
  offset : Nat := 0
  osCode : Int := 0
deriving DecidableEq, Repr

/-- Value or typed error. -/
abbrev Result (Value : Type*) := Except Error Value

/-- The cross-layer verdict scale.  The enumeration has a fixed underlying byte
and is cast from stored bytes unchecked, so a byte that names no enumerator is a
value of it too. -/
inductive Confidence where
  | kRejected
  | kUncertain
  | kValid
  | unnamed (raw : UInt8) (outside : 2 < raw)
deriving DecidableEq

namespace Confidence

/-- `static_cast<std::uint8_t>(confidence)`. -/
def toByte : Confidence → UInt8
  | kRejected => 0
  | kUncertain => 1
  | kValid => 2
  | unnamed raw _ => raw

/-- `static_cast<Confidence>(raw)`. -/
def ofByte (raw : UInt8) : Confidence :=
  if outside : 2 < raw then unnamed raw outside
  else if raw = 0 then kRejected
  else if raw = 1 then kUncertain
  else kValid

@[simp]
theorem ofByte_toByte (confidence : Confidence) : ofByte confidence.toByte = confidence := by
  cases confidence with
  | kRejected => rfl
  | kUncertain => rfl
  | kValid => rfl
  | unnamed raw outside => simp [toByte, ofByte, outside]

end Confidence

/-- Which source claims some bytes, cast from stored bytes unchecked like
`Confidence`. -/
inductive CandidateSource where
  | kFilesystem
  | kCarve
  | unnamed (raw : UInt8) (outside : 1 < raw)
deriving DecidableEq

namespace CandidateSource

def toByte : CandidateSource → UInt8
  | kFilesystem => 0
  | kCarve => 1
  | unnamed raw _ => raw

def ofByte (raw : UInt8) : CandidateSource :=
  if outside : 1 < raw then unnamed raw outside
  else if raw = 0 then kFilesystem
  else kCarve

@[simp]
theorem ofByte_toByte (source : CandidateSource) : ofByte source.toByte = source := by
  cases source with
  | kFilesystem => rfl
  | kCarve => rfl
  | unnamed raw outside => simp [toByte, ofByte, outside]

end CandidateSource

/-- A device-relative byte range. -/
structure Extent where
  deviceOffset : UInt64
  lengthBytes : UInt64
deriving DecidableEq, Repr

/-- FILETIME ticks, the layer's one epoch. -/
structure Timestamps where
  created : UInt64
  modified : UInt64
  accessed : UInt64
deriving DecidableEq, Repr

/-- Lifecycle classification of a filesystem entry. -/
inductive EntryState where
  | kLive
  | kDeleted
  | kOrphaned
deriving DecidableEq, Repr

/-- One file a filesystem can name.  Its content is in `extents`, or carried in
`residentContent`, or could not be located at all. -/
structure RecoveredEntry where
  path : Bytes
  sizeInBytes : UInt64
  extents : List Extent
  residentContent : Bytes
  timestamps : Timestamps
  state : EntryState
  recoverability : Confidence
deriving DecidableEq

/-- A bounded count: the value itself when it does not exceed `bound`. -/
def boundedCount (untrusted bound : Nat) : Result Nat :=
  if untrusted > bound then .error { code := .kOutOfRange } else .ok untrusted

/-- `a + b`, pinned at the maximum instead of wrapping. -/
def saturatingAdd64 (a b : Nat) : Nat :=
  if b > kMax - a then kMax else a + b

theorem saturatingAdd64_eq_min {a : Nat} (b : Nat) (fits : a ≤ kMax) :
    saturatingAdd64 a b = min (a + b) kMax := by
  unfold saturatingAdd64
  split <;> omega

theorem toNat_le_kMax (word : UInt64) : word.toNat ≤ kMax := by
  have := word.toNat_lt
  unfold kMax
  omega

end Revenant
