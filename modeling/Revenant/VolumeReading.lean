import Revenant.BlockDevices
import Revenant.ByteReader
import Revenant.Consulting
import Revenant.NameDecode

/-!
# Reading a volume's metadata

What every filesystem reads its structures with.  A device is met over the
course of a walk: the same read may fail at one time and succeed at another, so
the device is given for every number of reads made before.
-/

namespace Revenant

open Consulting

/-- A walk's reads, each with the answer it got, newest first. -/
abbrev ReadLog := List (Result Bytes)

/-- A computation that reads a device and returns whatever the reads gave. -/
abbrev Reading := Asking (Result Bytes)

/-- A computation that reads a device and may fail. -/
abbrev Attempt := Attempting (Result Bytes) Error

/-- A device as it answers once `made` reads were made. -/
abbrev Source := (made : Nat) → BlockDevice

/-- A device that answers every read the same way each time. -/
def BlockDevice.unchanging (device : BlockDevice) : Source := fun _ => device

/-- A whole buffer of such a device, or the failure the read is. -/
def BlockDevice.readWhole (device : BlockDevice) (offset bufferSize : Nat) : Result Bytes := do
  let got ← device.readAt offset bufferSize
  if got.length ≠ bufferSize then .error { code := .kOutOfRange, offset := offset } else .ok got

namespace Source

def readAt (source : Source) (offset bufferSize : Nat) : Attempt Bytes :=
  ask (fun made (request : Nat × Nat) => (source made).readAt request.1 request.2)
    (offset, bufferSize)

/-- Fills a buffer from `offset`.  A short read is a failure, not a shorter
answer. -/
def read (source : Source) (offset bufferSize : Nat) : Attempt Bytes := do
  let got ← source.readAt offset bufferSize
  if got.length ≠ bufferSize then throw { code := .kOutOfRange, offset := offset } else return got

/-- An unchanging device has one answer to each read. -/
theorem read_settles (device : BlockDevice) (offset bufferSize : Nat) :
    Settles (device.unchanging.read offset bufferSize) (device.readWhole offset bufferSize) := by
  have asked : Settles (device.unchanging.readAt offset bufferSize) (device.readAt offset bufferSize) :=
    fun _ => rfl
  apply Settles.bind asked
  intro got _ log
  split <;> rfl

/-- A healthy image gives what lies there. -/
theorem read_gives (image : Image) {offset size : Nat}
    (inside : offset + size ≤ image.bytes.length) :
    Gives (image.device.unchanging.read offset size) (ByteLayout.slice image.bytes offset size) := by
  have addressable := image.addressable
  have whole : (ByteLayout.slice image.bytes offset size).length = size := by
    rw [ByteLayout.slice, List.length_take, List.length_drop]
    omega
  intro log
  have answer : image.device.readAt offset size =
      .ok (ByteLayout.slice image.bytes offset size) :=
    image.readAt_eq (by unfold kMax; omega)
  simp [read, readAt, ask, BlockDevice.unchanging, Bind.bind, ExceptT.bind, ExceptT.mk,
    StateT.bind, ExceptT.bindCont, answer, whole, Pure.pure, ExceptT.pure]
  rfl

/-- Whatever a read of a healthy image gives is what lies there. -/
theorem read_yields (image : Image) (offset size : Nat) :
    Yields (image.device.unchanging.read offset size) fun raw =>
      raw = ByteLayout.slice image.bytes offset size := by
  intro log raw found
  rw [read_settles image.device offset size log] at found
  simp only [BlockDevice.readWhole, bind_eq_ok_iff, reject_eq_ok_iff, Except.ok.injEq] at found
  obtain ⟨got, answer, -, rfl⟩ := found
  by_cases fits : size ≤ kMax - offset
  · rw [image.readAt_eq fits] at answer
    exact (Except.ok.inj answer).symm
  · simp only [Image.device, clampReadRange, if_pos (Nat.not_le.mp fits), bind, Except.bind] at answer
    cases answer

/-- No read of a healthy image fails as a bad device does. -/
theorem read_spares (image : Image) (offset size : Nat) :
    Spares (image.device.unchanging.read offset size) fun error => error.code = .kIoFailure := by
  have asked : Spares (image.device.unchanging.readAt offset size) fun error =>
      error.code = .kIoFailure := by
    intro log error failed
    have answer : image.device.readAt offset size = .error error := failed
    simp only [Image.device, clampReadRange, bind, Except.bind] at answer
    split at answer
    case h_1 other clamped =>
        cases answer
        split at clamped
        · cases clamped
          intro same
          cases same
        · split at clamped <;> cases clamped
    case h_2 => cases answer
  apply Spares.bind asked Yields.trivial
  intro got _
  refine Spares.reject (fun _ => ?_) fun _ => Spares.pure
  intro same
  cases same

/-- The bytes a mounter recognizes a volume by.  A device too short to hold them
carries no filesystem. -/
def readMountRegion (source : Source) (offset length : Nat) : Attempt Bytes := do
  let got ← source.readAt offset length
  if got.length ≠ length then throw { code := .kNotFound } else return got

end Source

def kBootSectorBytes : Nat := 512

section Slots

/-- One fixed-size record, length-checked once. -/
def slotReader (slot : Bytes) (slotBytes : Nat) : Result Bytes :=
  if slot.length < slotBytes then .error { code := .kOutOfRange, offset := slot.length }
  else .ok (slot.take slotBytes)

theorem slotReader_eq_ok_iff {slot reader : Bytes} {slotBytes : Nat} :
    slotReader slot slotBytes = .ok reader ↔
      slotBytes ≤ slot.length ∧ reader = slot.take slotBytes := by
  rw [slotReader, reject_eq_ok_iff, Except.ok.injEq, Nat.not_lt, eq_comm]

def slotByteAt (reader : Bytes) (offset : Nat) : UInt8 := reader.getD offset 0

def slotFieldAt (width : Nat) (reader : Bytes) (offset : Nat) : Nat :=
  match ByteReader.readLe width reader offset with
  | .ok value => value
  | .error _ => 0

/-- The same, big-endian. -/
def slotFieldBeAt (width : Nat) (reader : Bytes) (offset : Nat) : Nat :=
  match ByteReader.bytes reader offset width with
  | .ok view => ByteLayout.fromLittleEndian view.reverse
  | .error _ => 0

theorem slotFieldAt_eq {reader : Bytes} {width offset : Nat} (fits : offset + width ≤ reader.length) :
    slotFieldAt width reader offset = ByteLayout.readLe width reader offset := by
  rw [slotFieldAt, ByteReader.readLe_eq_ok_iff.mpr ⟨fits, rfl⟩]

theorem slotFieldAt_lt (width : Nat) (reader : Bytes) (offset : Nat) :
    slotFieldAt width reader offset < 256 ^ width := by
  unfold slotFieldAt
  cases found : ByteReader.readLe width reader offset with
  | error error => exact Nat.pow_pos (by decide)
  | ok value =>
      rw [(ByteReader.readLe_eq_ok_iff.mp found).2]
      exact ByteLayout.readLe_lt _ _ _

/-- The whole slots of a directory, in order. -/
def wholeSlots (slotBytes : Nat) (bytes : Bytes) : List Bytes :=
  (List.range (bytes.length / slotBytes)).map fun index =>
    ByteLayout.slice bytes (index * slotBytes) slotBytes

end Slots

/-- `parent/name`, or just `name` at the root. -/
def joinedPath (parent name : Bytes) : Bytes :=
  if parent.isEmpty then name else parent ++ ascii "/" ++ name

section Clocks

def kUnixEpochInFiletimeSeconds : Nat := 11644473600
def kTicksPerSecond : Nat := 10000000

/-- Unix seconds as FILETIME ticks.  Every stamp read from disk is nonnegative. -/
def filetimeFromUnixSeconds (seconds : Nat) : UInt64 :=
  if seconds = 0 then 0
  else UInt64.ofNat ((seconds + kUnixEpochInFiletimeSeconds) * kTicksPerSecond)

/-- A DOS date and time, none of the fields judged yet. -/
structure Civil where
  year : Nat
  month : Nat
  day : Nat
  hour : Nat
  minute : Nat
  second : Nat

namespace Civil

def kDosEpochYear : Nat := 1980
def kSecondsPerDay : Nat := 86400

def unpack (date time : Nat) : Civil where
  year := kDosEpochYear + ((date >>> 9) &&& 0x7F)
  month := (date >>> 5) &&& 0x0F
  day := date &&& 0x1F
  hour := (time >>> 11) &&& 0x1F
  minute := (time >>> 5) &&& 0x3F
  second := (time &&& 0x1F) * 2

def isExpressible (civil : Civil) : Bool :=
  1 ≤ civil.month && civil.month ≤ 12 && 1 ≤ civil.day && civil.day ≤ 31 && civil.hour ≤ 23 &&
    civil.minute ≤ 59 && civil.second ≤ 59

/-- Days since 1970-01-01.  DOS years begin at 1980, so nothing here is
negative. -/
def daysFromCivil (civil : Civil) : Nat :=
  let shifted := civil.year - if civil.month ≤ 2 then 1 else 0
  let era := shifted / 400
  let yearOfEra := shifted - era * 400
  let marchBased := if civil.month > 2 then civil.month - 3 else civil.month + 9
  let dayOfYear := (153 * marchBased + 2) / 5 + civil.day - 1
  let dayOfEra := yearOfEra * 365 + yearOfEra / 4 - yearOfEra / 100 + dayOfYear
  era * 146097 + dayOfEra - 719468

def secondsOfDay (civil : Civil) : Nat := civil.hour * 3600 + civil.minute * 60 + civil.second

def unixSecondsOf (civil : Civil) : Nat := civil.daysFromCivil * kSecondsPerDay + civil.secondsOfDay

end Civil

/-- A DOS stamp as FILETIME ticks, 0 when it names no date. -/
def toFiletime (date time : Nat) : UInt64 :=
  let civil := Civil.unpack date time
  if civil.isExpressible then filetimeFromUnixSeconds civil.unixSecondsOf else 0

end Clocks

end Revenant
