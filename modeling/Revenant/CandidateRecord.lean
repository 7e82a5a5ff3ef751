import Revenant.ByteLayout
import Revenant.CoreValues

/-!
# The fixed part of an indexed candidate

The index file is a header and fixed-size records.  Every on-disk integer is
little-endian, and the record's three lengths describe its entry in the blob.
-/

namespace Revenant

/-- Where a candidate's variable-length parts live in the blob, and everything
that has the same width for every candidate. -/
structure CandidateRecord where
  blobOffset : UInt64
  created : UInt64
  modified : UInt64
  accessed : UInt64
  nameLength : UInt32
  residentLength : UInt32
  extentCount : UInt32
  confidence : UInt8
  source : UInt8
deriving DecidableEq

namespace CandidateRecord

open ByteLayout

def kIndexMagic : Bytes := [0x52, 0x56, 0x4E, 0x54, 0x49, 0x44, 0x58, 0x00]

def kIndexVersion : Nat := 1

def kIndexHeaderBytes : Nat := 16

def kRecordBytes : Nat := 48

def kExtentBytes : Nat := 16

def kBlobOffsetAt : Nat := 0x00
def kCreatedAt : Nat := 0x08
def kModifiedAt : Nat := 0x10
def kAccessedAt : Nat := 0x18
def kNameLengthAt : Nat := 0x20
def kResidentLengthAt : Nat := 0x24
def kExtentCountAt : Nat := 0x28
def kConfidenceAt : Nat := 0x2C
def kSourceAt : Nat := 0x2D

def kVersionAt : Nat := 0x08
def kRecordSizeAt : Nat := 0x0C

def encodeIndexHeader : Bytes :=
  layOut kIndexHeaderBytes
    [⟨0, kIndexMagic⟩, leField 4 kVersionAt kIndexVersion, leField 4 kRecordSizeAt kRecordBytes]

def headerIsOurs (raw : Bytes) : Bool :=
  decide (raw.length ≥ kIndexHeaderBytes) && raw.take kIndexMagic.length == kIndexMagic &&
    readLe 4 raw kVersionAt == kIndexVersion && readLe 4 raw kRecordSizeAt == kRecordBytes

def timestampFields (record : CandidateRecord) : List Field :=
  [leField 8 kCreatedAt record.created.toNat, leField 8 kModifiedAt record.modified.toNat,
    leField 8 kAccessedAt record.accessed.toNat]

def blobLengthFields (record : CandidateRecord) : List Field :=
  [leField 4 kNameLengthAt record.nameLength.toNat,
    leField 4 kResidentLengthAt record.residentLength.toNat,
    leField 4 kExtentCountAt record.extentCount.toNat]

def fieldsOf (record : CandidateRecord) : List Field :=
  leField 8 kBlobOffsetAt record.blobOffset.toNat ::
    (timestampFields record ++ blobLengthFields record ++
      [leField 1 kConfidenceAt record.confidence.toNat, leField 1 kSourceAt record.source.toNat])

def encodeRecord (record : CandidateRecord) : Bytes :=
  layOut kRecordBytes (fieldsOf record)

def decodeRecord (raw : Bytes) : CandidateRecord where
  blobOffset := UInt64.ofNat (readLe 8 raw kBlobOffsetAt)
  created := UInt64.ofNat (readLe 8 raw kCreatedAt)
  modified := UInt64.ofNat (readLe 8 raw kModifiedAt)
  accessed := UInt64.ofNat (readLe 8 raw kAccessedAt)
  nameLength := UInt32.ofNat (readLe 4 raw kNameLengthAt)
  residentLength := UInt32.ofNat (readLe 4 raw kResidentLengthAt)
  extentCount := UInt32.ofNat (readLe 4 raw kExtentCountAt)
  confidence := UInt8.ofNat (readLe 1 raw kConfidenceAt)
  source := UInt8.ofNat (readLe 1 raw kSourceAt)

theorem headerIsOurs_encodeIndexHeader : headerIsOurs encodeIndexHeader = true := by
  decide

@[simp]
theorem length_encodeIndexHeader : encodeIndexHeader.length = kIndexHeaderBytes := by
  decide

theorem fieldsOf_fit (record : CandidateRecord) :
    ∀ field ∈ fieldsOf record, field.end_ ≤ kRecordBytes := by
  simp [fieldsOf, timestampFields, blobLengthFields, Field.end_, leField, kRecordBytes,
    kBlobOffsetAt, kCreatedAt, kModifiedAt, kAccessedAt, kNameLengthAt, kResidentLengthAt,
    kExtentCountAt, kConfidenceAt, kSourceAt]

theorem fieldsOf_apart (record : CandidateRecord) : (fieldsOf record).Pairwise Field.Apart := by
  simp [fieldsOf, timestampFields, blobLengthFields, Field.Apart, Field.end_, leField,
    kBlobOffsetAt, kCreatedAt, kModifiedAt, kAccessedAt, kNameLengthAt, kResidentLengthAt,
    kExtentCountAt, kConfidenceAt, kSourceAt]

@[simp]
theorem length_encodeRecord (record : CandidateRecord) :
    (encodeRecord record).length = kRecordBytes :=
  length_layOut (fieldsOf_fit record)

theorem readLe_encodeRecord (record : CandidateRecord) {width at_ value : Nat}
    (member : leField width at_ value ∈ fieldsOf record) (bounded : value < 256 ^ width) :
    readLe width (encodeRecord record) at_ = value := by
  rw [encodeRecord, readLe_layOut (fieldsOf_fit record) (fieldsOf_apart record) member,
    Nat.mod_eq_of_lt bounded]

/-- What is read back is what was written. -/
theorem decodeRecord_encodeRecord (record : CandidateRecord) :
    decodeRecord (encodeRecord record) = record := by
  rw [decodeRecord, readLe_encodeRecord record _ record.blobOffset.toNat_lt,
    readLe_encodeRecord record _ record.created.toNat_lt,
    readLe_encodeRecord record _ record.modified.toNat_lt,
    readLe_encodeRecord record _ record.accessed.toNat_lt,
    readLe_encodeRecord record _ record.nameLength.toNat_lt,
    readLe_encodeRecord record _ record.residentLength.toNat_lt,
    readLe_encodeRecord record _ record.extentCount.toNat_lt,
    readLe_encodeRecord record _ record.confidence.toNat_lt,
    readLe_encodeRecord record _ record.source.toNat_lt]
  · simp
  all_goals simp [fieldsOf, timestampFields, blobLengthFields]

end CandidateRecord
end Revenant
