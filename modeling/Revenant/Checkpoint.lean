import Revenant.ByteLayout
import Revenant.SessionFiles
import Revenant.Sha256

/-!
# How far a run had got

A checkpoint is small and fixed-size, and is replaced whole.  Reading one back is
a parse of untrusted bytes.
-/

namespace Revenant

/-- What run a checkpoint belongs to, how far its scan had got and how many
candidates the index held by then. -/
structure Checkpoint where
  shape : Sha256Digest
  scanCursor : UInt64
  indexRecords : UInt64
deriving DecidableEq

namespace Checkpoint

open ByteLayout

def kMagic : Bytes := [0x52, 0x56, 0x4E, 0x54, 0x43, 0x4B, 0x50, 0x00]

def kVersion : Nat := 1

def kCheckpointBytes : Nat := 64

def kVersionAt : Nat := 8
def kShapeAt : Nat := 16
def kCursorAt : Nat := 48
def kRecordsAt : Nat := 56

def fieldsOf (checkpoint : Checkpoint) : List Field :=
  [⟨0, kMagic⟩, leField 4 kVersionAt kVersion, ⟨kShapeAt, checkpoint.shape.bytes⟩,
    leField 8 kCursorAt checkpoint.scanCursor.toNat,
    leField 8 kRecordsAt checkpoint.indexRecords.toNat]

def encode (checkpoint : Checkpoint) : Bytes := layOut kCheckpointBytes (fieldsOf checkpoint)

def headerIsOurs (raw : Bytes) : Bool :=
  raw.take kMagic.length == kMagic && readLe 4 raw kVersionAt == kVersion

/-- The shape in a checkpoint of the right size. -/
def shapeIn (raw : Bytes) (sized : raw.length = kCheckpointBytes) : Sha256Digest where
  bytes := slice raw kShapeAt kSha256Bytes
  sized := by
    rw [slice, List.length_take, List.length_drop, sized]
    rfl

def decode (raw : Bytes) : Result Checkpoint :=
  if sized : raw.length = kCheckpointBytes then
    if headerIsOurs raw then
      .ok ⟨shapeIn raw sized, UInt64.ofNat (readLe 8 raw kCursorAt),
        UInt64.ofNat (readLe 8 raw kRecordsAt)⟩
    else .error { code := .kInvalidArgument }
  else .error { code := .kInvalidArgument }

def writeCheckpoint (checkpoint : Checkpoint) : Effect := .replaceCheckpoint (encode checkpoint)

def readCheckpoint (disk : SessionDisk) : Result Checkpoint :=
  match disk.checkpoint with
  | none => .error { code := .kNotFound }
  | some raw => decode raw

theorem fieldsOf_fit (checkpoint : Checkpoint) :
    ∀ field ∈ fieldsOf checkpoint, field.end_ ≤ kCheckpointBytes := by
  simp [fieldsOf, Field.end_, leField, kMagic, kVersionAt, kShapeAt, kCursorAt, kRecordsAt,
    kCheckpointBytes, checkpoint.shape.sized, kSha256Bytes]

theorem fieldsOf_apart (checkpoint : Checkpoint) :
    (fieldsOf checkpoint).Pairwise Field.Apart := by
  simp [fieldsOf, Field.Apart, Field.end_, leField, kMagic, kVersionAt, kShapeAt, kCursorAt,
    kRecordsAt, checkpoint.shape.sized, kSha256Bytes]

theorem slice_encode (checkpoint : Checkpoint) (field : Field)
    (member : field ∈ fieldsOf checkpoint) :
    slice (encode checkpoint) field.at_ field.bytes.length = field.bytes :=
  slice_layOut (fieldsOf_fit checkpoint) (fieldsOf_apart checkpoint) member

theorem readLe_encode (checkpoint : Checkpoint) {width at_ value : Nat}
    (member : leField width at_ value ∈ fieldsOf checkpoint) (bounded : value < 256 ^ width) :
    readLe width (encode checkpoint) at_ = value := by
  rw [encode, readLe_layOut (fieldsOf_fit checkpoint) (fieldsOf_apart checkpoint) member,
    Nat.mod_eq_of_lt bounded]

theorem length_encode (checkpoint : Checkpoint) :
    (encode checkpoint).length = kCheckpointBytes :=
  length_layOut (fieldsOf_fit checkpoint)

theorem headerIsOurs_encode (checkpoint : Checkpoint) :
    headerIsOurs (encode checkpoint) = true := by
  have magic := slice_encode checkpoint ⟨0, kMagic⟩ (by simp [fieldsOf])
  rw [slice, List.drop_zero] at magic
  have version : readLe 4 (encode checkpoint) kVersionAt = kVersion :=
    readLe_encode checkpoint (by simp [fieldsOf]) (by decide)
  rw [headerIsOurs, magic, version]
  simp

/-- What is read back is what was written. -/
theorem decode_encode (checkpoint : Checkpoint) : decode (encode checkpoint) = .ok checkpoint := by
  have shape := slice_encode checkpoint ⟨kShapeAt, checkpoint.shape.bytes⟩ (by simp [fieldsOf])
  simp only [checkpoint.shape.sized] at shape
  have cursor : readLe 8 (encode checkpoint) kCursorAt = checkpoint.scanCursor.toNat :=
    readLe_encode checkpoint (by simp [fieldsOf]) checkpoint.scanCursor.toNat_lt
  have records : readLe 8 (encode checkpoint) kRecordsAt = checkpoint.indexRecords.toNat :=
    readLe_encode checkpoint (by simp [fieldsOf]) checkpoint.indexRecords.toNat_lt
  rw [decode, dif_pos (length_encode checkpoint), if_pos (headerIsOurs_encode checkpoint), cursor,
    records, UInt64.ofNat_toNat, UInt64.ofNat_toNat]
  simp only [shapeIn, shape]

theorem readCheckpoint_congr {disk later : SessionDisk}
    (same : later.checkpoint = disk.checkpoint) : readCheckpoint later = readCheckpoint disk := by
  rw [readCheckpoint, readCheckpoint, same]

theorem readCheckpoint_perform (checkpoint : Checkpoint) (disk : SessionDisk) :
    readCheckpoint (disk.perform (writeCheckpoint checkpoint)) = .ok checkpoint :=
  decode_encode checkpoint

end Checkpoint
end Revenant
