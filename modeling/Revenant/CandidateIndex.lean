import Revenant.Arbitration
import Revenant.CandidateRecord
import Revenant.SessionFiles

/-!
# The durable record of everything a run discovered

Candidates are appended to two files: the blob holds the variable-length parts
and is flushed before the record that points into it.  Reading back is a bounded
parse of untrusted bytes.  The two sides meet in `Describes`: a record describes
a candidate in a blob that holds its entry, wherever in the blob that is.
-/

namespace Revenant
namespace CandidateIndex

open ByteLayout CandidateRecord

def kMaxCandidateNameBytes : Nat := 4096

def kMaxCandidateExtents : Nat := 4096

def kMaxResidentBytes : Nat := 2 ^ 16

def kMaxIndexedCandidates : Nat := 2 ^ 20

def encodeExtent (extent : Extent) : Bytes :=
  toLittleEndian 8 extent.deviceOffset.toNat ++ toLittleEndian 8 extent.lengthBytes.toNat

/-- A candidate's variable-length parts: name, extents, resident content. -/
def encodeBlobEntry (candidate : Candidate) : Bytes :=
  candidate.name ++ candidate.extents.flatMap encodeExtent ++ candidate.residentContent

def recordFor (candidate : Candidate) (blobOffset : Nat) : CandidateRecord where
  blobOffset := UInt64.ofNat blobOffset
  created := candidate.timestamps.created
  modified := candidate.timestamps.modified
  accessed := candidate.timestamps.accessed
  nameLength := UInt32.ofNat candidate.name.length
  residentLength := UInt32.ofNat candidate.residentContent.length
  extentCount := UInt32.ofNat candidate.extents.length
  confidence := candidate.confidence.toByte
  source := candidate.source.toByte

/-- Where a record file has to end to hold exactly `records` candidates. -/
def recordAreaBytes (records : Nat) : Nat := kIndexHeaderBytes + records * kRecordBytes

end CandidateIndex

/-- An index open for appending: how far its blob reaches and how many records
it holds. -/
structure CandidateIndex where
  blobBytes : Nat
  count : Nat
deriving DecidableEq, Repr

/-- What reading an index produced: its candidates in append order, and how many
records were dropped for being torn or impossible. -/
structure IndexContents where
  candidates : List Candidate
  droppedRecords : Nat
deriving DecidableEq

namespace CandidateIndex

open ByteLayout CandidateRecord

/-- Starts a new, empty index, replacing anything already there. -/
def create : List Effect × CandidateIndex :=
  ([.resize .kIndex 0, .resize .kBlob 0, .append .kIndex encodeIndexHeader, .flush .kIndex], ⟨0, 0⟩)

/-- Keeps the first `records` candidates and drops everything after them.  An
index holding fewer does not match the checkpoint and is refused. -/
def reopen (disk : SessionDisk) (records : Nat) : Result (List Effect × CandidateIndex) :=
  if disk.index.contents.length < recordAreaBytes records then
    .error { code := .kInvalidArgument }
  else .ok ([.resize .kIndex (recordAreaBytes records)], ⟨disk.blob.contents.length, records⟩)

/-- Appends one candidate, the blob before the record that points into it. -/
def writeEntry (index : CandidateIndex) (candidate : Candidate) : List Effect × CandidateIndex :=
  let entry := encodeBlobEntry candidate
  ([.append .kBlob entry, .flush .kBlob,
      .append .kIndex (encodeRecord (recordFor candidate index.blobBytes)), .flush .kIndex],
    ⟨(index.blobBytes + entry.length) % 2 ^ 64, index.count + 1⟩)

def appendAll (index : CandidateIndex) : List Candidate → List Effect × CandidateIndex
  | [] => ([], index)
  | candidate :: candidates =>
      let written := index.writeEntry candidate
      let later := appendAll written.2 candidates
      (written.1 ++ later.1, later.2)

section Reading

/-- Every length a record states about itself, checked before it is used. -/
def lengthsAreSane (record : CandidateRecord) : Bool :=
  (boundedCount record.nameLength.toNat kMaxCandidateNameBytes).toBool &&
    (boundedCount record.extentCount.toNat kMaxCandidateExtents).toBool &&
      (boundedCount record.residentLength.toNat kMaxResidentBytes).toBool

def entryBytes (record : CandidateRecord) : Nat :=
  record.nameLength.toNat + record.extentCount.toNat * kExtentBytes + record.residentLength.toNat

def blobRangeFits (record : CandidateRecord) (blobBytes : Nat) : Bool :=
  decide (record.blobOffset.toNat ≤ blobBytes) &&
    decide (entryBytes record ≤ blobBytes - record.blobOffset.toNat)

/-- Reads a range of a file into a zeroed buffer. -/
def readAt (file : Bytes) (offset length : Nat) : Bytes :=
  let got := slice file offset length
  got ++ List.replicate (length - got.length) 0

def decodeExtents (raw : Bytes) (count : Nat) : List Extent :=
  (List.range count).map fun ordinal =>
    ⟨UInt64.ofNat (readLe 8 raw (ordinal * kExtentBytes)),
      UInt64.ofNat (readLe 8 raw (ordinal * kExtentBytes + 8))⟩

def decodeCandidate (record : CandidateRecord) (entry : Bytes) : Candidate where
  name := entry.take record.nameLength.toNat
  extents := decodeExtents
    (slice entry record.nameLength.toNat (record.extentCount.toNat * kExtentBytes))
    record.extentCount.toNat
  residentContent := entry.drop (entry.length - record.residentLength.toNat)
  timestamps := ⟨record.created, record.modified, record.accessed⟩
  confidence := Confidence.ofByte record.confidence
  source := CandidateSource.ofByte record.source

/-- Nothing when the record cannot be trusted: an impossible length, or a range
the blob does not hold. -/
def readCandidate (record : CandidateRecord) (blob : Bytes) : Option Candidate :=
  if !lengthsAreSane record || !blobRangeFits record blob.length then none
  else some (decodeCandidate record (readAt blob record.blobOffset.toNat (entryBytes record)))

/-- How many whole records the index file holds. -/
def recordCount (records : Bytes) : Result Nat :=
  if records.length < kIndexHeaderBytes ∨
      headerIsOurs (readAt records 0 kIndexHeaderBytes) = false then
    .error { code := .kInvalidArgument }
  else boundedCount ((records.length - kIndexHeaderBytes) / kRecordBytes) kMaxIndexedCandidates

def tornTailRecords (records : Bytes) : Nat :=
  if (records.length - kIndexHeaderBytes) % kRecordBytes = 0 then 0 else 1

def appendCandidate (contents : IndexContents) (candidate : Option Candidate) : IndexContents :=
  match candidate with
  | none => { contents with droppedRecords := contents.droppedRecords + 1 }
  | some candidate => { contents with candidates := contents.candidates ++ [candidate] }

def readOneRecord (records blob : Bytes) (contents : IndexContents) (ordinal : Nat) :
    IndexContents :=
  let record := decodeRecord
    (readAt records (kIndexHeaderBytes + ordinal * kRecordBytes) kRecordBytes)
  appendCandidate contents (readCandidate record blob)

def readAll (records blob : Bytes) (count : Nat) : IndexContents :=
  (List.range count).foldl (readOneRecord records blob) ⟨[], tornTailRecords records⟩

/-- Reads back everything an index holds, in append order. -/
def readIndex (disk : SessionDisk) : Result IndexContents := do
  let count ← recordCount disk.index.contents
  return readAll disk.index.contents disk.blob.contents count

end Reading

theorem readAt_of_fits {file : Bytes} {offset length : Nat}
    (fits : offset + length ≤ file.length) : readAt file offset length = slice file offset length := by
  have whole : (slice file offset length).length = length := by
    rw [slice, List.length_take, List.length_drop]
    omega
  rw [readAt, whole, Nat.sub_self, List.replicate_zero, List.append_nil]

theorem length_encodeRecords (records : List CandidateRecord) :
    (records.flatMap encodeRecord).length = records.length * kRecordBytes :=
  length_flatMap_const length_encodeRecord records

/-- The record at an ordinal is found where its ordinal says. -/
theorem readAt_record (before : List CandidateRecord) (record : CandidateRecord)
    (after : List CandidateRecord) :
    readAt (encodeIndexHeader ++ (before ++ record :: after).flatMap encodeRecord)
        (kIndexHeaderBytes + before.length * kRecordBytes) kRecordBytes =
      encodeRecord record := by
  have skipped : (encodeIndexHeader ++ before.flatMap encodeRecord).length =
      kIndexHeaderBytes + before.length * kRecordBytes := by
    rw [List.length_append, length_encodeIndexHeader, length_encodeRecords]
  have parts : encodeIndexHeader ++ (before ++ record :: after).flatMap encodeRecord =
      (encodeIndexHeader ++ before.flatMap encodeRecord) ++
        (encodeRecord record ++ after.flatMap encodeRecord) := by
    simp
  rw [parts, readAt_of_fits]
  · rw [slice, ← skipped, List.drop_left, List.take_left']
    exact length_encodeRecord record
  · simp only [List.length_append, length_encodeIndexHeader, length_encodeRecords,
      length_encodeRecord]
    omega

theorem foldl_readOneRecord (blob : Bytes) (before after : List CandidateRecord)
    (contents : IndexContents) :
    (List.range' before.length after.length).foldl
        (readOneRecord (encodeIndexHeader ++ (before ++ after).flatMap encodeRecord) blob) contents =
      ⟨contents.candidates ++ after.filterMap (readCandidate · blob),
        contents.droppedRecords + (after.filter fun record =>
          (readCandidate record blob).isNone).length⟩ := by
  induction after generalizing before contents with
  | nil => simp
  | cons record after ih =>
      have here : readOneRecord (encodeIndexHeader ++ (before ++ record :: after).flatMap encodeRecord)
          blob contents before.length = appendCandidate contents (readCandidate record blob) := by
        rw [readOneRecord, readAt_record, decodeRecord_encodeRecord]
      have later := ih (before ++ [record]) (appendCandidate contents (readCandidate record blob))
      rw [List.length_append, List.length_singleton, List.append_assoc, List.singleton_append]
        at later
      rw [List.length_cons, List.range'_succ, List.foldl_cons, here, later]
      cases read : readCandidate record blob with
      | none =>
          simp only [appendCandidate, List.filterMap_cons, read, List.filter_cons,
            Option.isNone_none, if_true, List.length_cons, IndexContents.mk.injEq, true_and]
          omega
      | some candidate => simp [appendCandidate, read]

/-- Reading an index of whole records reads each of them against the blob. -/
theorem readIndex_eq {disk : SessionDisk} {records : List CandidateRecord}
    (whole : disk.index.contents = encodeIndexHeader ++ records.flatMap encodeRecord) :
    readIndex disk =
      if records.length > kMaxIndexedCandidates then .error { code := .kOutOfRange }
      else .ok ⟨records.filterMap (readCandidate · disk.blob.contents),
        (records.filter fun record =>
          (readCandidate record disk.blob.contents).isNone).length⟩ := by
  have size : disk.index.contents.length = kIndexHeaderBytes + records.length * kRecordBytes := by
    rw [whole, List.length_append, length_encodeIndexHeader, length_encodeRecords]
  have header : readAt disk.index.contents 0 kIndexHeaderBytes = encodeIndexHeader := by
    rw [readAt_of_fits (by omega), slice, whole, List.drop_zero, List.take_left']
    exact length_encodeIndexHeader
  have area : (disk.index.contents.length - kIndexHeaderBytes) / kRecordBytes = records.length := by
    rw [size, Nat.add_sub_cancel_left]
    exact Nat.mul_div_cancel _ (by decide)
  have noTail : tornTailRecords disk.index.contents = 0 := by
    rw [tornTailRecords, size, Nat.add_sub_cancel_left, Nat.mul_mod_left, if_pos rfl]
  have counted : recordCount disk.index.contents =
      boundedCount records.length kMaxIndexedCandidates := by
    rw [recordCount, header, headerIsOurs_encodeIndexHeader, area, if_neg]
    rintro (short | foreign)
    · omega
    · simp at foreign
  have all := foldl_readOneRecord disk.blob.contents [] records ⟨[], 0⟩
  simp only [List.length_nil, List.nil_append, Nat.zero_add, ← List.range_eq_range'] at all
  rw [← whole] at all
  rw [readIndex, counted, boundedCount]
  split
  · rfl
  · simp only [readAll, noTail, all, bind, Except.bind, pure, Except.pure]

end CandidateIndex
end Revenant
