import Revenant.ByteReader
import Revenant.CandidateIndex

/-!
# Reading an index of arbitrary bytes

The reader takes values out of checked reads and views out of buffers without asking
again whether they are there.  Here every such step can trap, and none of them does:
whatever the two files hold, the trapping reader comes to the same result.
-/

namespace Revenant
namespace CandidateIndex

open ByteLayout CandidateRecord

section Trapping

/-- `Result::value`, which throws when there is none. -/
def takeValue {Value : Type} (result : Result Value) : Option Value := result.toOption

/-- `span::first`, `span::subspan` and `span::last`, undefined past the end. -/
def viewOf (raw : Bytes) (offset count : Nat) : Option Bytes :=
  if offset + count ≤ raw.length then some (slice raw offset count) else none

/-- A read of a range that has to lie inside the file. -/
def readInside (file : Bytes) (offset length : Nat) : Option Bytes :=
  if offset + length ≤ file.length then some (readAt file offset length) else none

/-- `decodeRecord`, each field taken out of its read. -/
def takeRecord (raw : Bytes) : Option CandidateRecord := do
  let raw ← viewOf raw 0 kRecordBytes
  let field (width at_ : Nat) : Option Nat := takeValue (ByteReader.readLe width raw at_)
  let blobOffset ← field 8 kBlobOffsetAt
  let created ← field 8 kCreatedAt
  let modified ← field 8 kModifiedAt
  let accessed ← field 8 kAccessedAt
  let nameLength ← field 4 kNameLengthAt
  let residentLength ← field 4 kResidentLengthAt
  let extentCount ← field 4 kExtentCountAt
  let confidence ← field 1 kConfidenceAt
  let source ← field 1 kSourceAt
  return ⟨UInt64.ofNat blobOffset, UInt64.ofNat created, UInt64.ofNat modified,
    UInt64.ofNat accessed, UInt32.ofNat nameLength, UInt32.ofNat residentLength,
    UInt32.ofNat extentCount, UInt8.ofNat confidence, UInt8.ofNat source⟩

/-- `headerIsOurs`; the fields are only read of a header that is long enough and
opens with the magic. -/
def takeHeaderIsOurs (raw : Bytes) : Option Bool :=
  if raw.length < kIndexHeaderBytes ∨ raw.take kIndexMagic.length ≠ kIndexMagic then some false
  else do
    let version ← takeValue (ByteReader.readLe 4 raw kVersionAt)
    let recordSize ← takeValue (ByteReader.readLe 4 raw kRecordSizeAt)
    return version == kIndexVersion && recordSize == kRecordBytes

def takeExtents (raw : Bytes) (count : Nat) : Option (List Extent) :=
  (List.range count).mapM fun ordinal => do
    let deviceOffset ← takeValue (ByteReader.readLe 8 raw (ordinal * kExtentBytes))
    let lengthBytes ← takeValue (ByteReader.readLe 8 raw (ordinal * kExtentBytes + 8))
    return ⟨UInt64.ofNat deviceOffset, UInt64.ofNat lengthBytes⟩

def takeCandidate (record : CandidateRecord) (entry : Bytes) : Option Candidate := do
  let name ← viewOf entry 0 record.nameLength.toNat
  let extents ← viewOf entry record.nameLength.toNat (record.extentCount.toNat * kExtentBytes)
  let resident ← viewOf entry (entry.length - record.residentLength.toNat)
    record.residentLength.toNat
  let extents ← takeExtents extents record.extentCount.toNat
  return ⟨name, extents, resident, ⟨record.created, record.modified, record.accessed⟩,
    Confidence.ofByte record.confidence, CandidateSource.ofByte record.source⟩

def takeRead (record : CandidateRecord) (blob : Bytes) : Option (Option Candidate) :=
  if !lengthsAreSane record || !blobRangeFits record blob.length then some none
  else do
    let entry ← readInside blob record.blobOffset.toNat (entryBytes record)
    return some (← takeCandidate record entry)

def takeRecordCount (records : Bytes) : Option (Result Nat) :=
  if records.length < kIndexHeaderBytes then some (.error { code := .kInvalidArgument })
  else do
    let header ← readInside records 0 kIndexHeaderBytes
    if !(← takeHeaderIsOurs header) then return .error { code := .kInvalidArgument }
    return boundedCount ((records.length - kIndexHeaderBytes) / kRecordBytes) kMaxIndexedCandidates

def takeOneRecord (records blob : Bytes) (contents : IndexContents) (ordinal : Nat) :
    Option IndexContents := do
  let raw ← readInside records (kIndexHeaderBytes + ordinal * kRecordBytes) kRecordBytes
  let record ← takeRecord raw
  return appendCandidate contents (← takeRead record blob)

/-- `readIndex` where every unchecked step may trap. -/
def takeIndex (disk : SessionDisk) : Option (Result IndexContents) := do
  match ← takeRecordCount disk.index.contents with
  | .error failure => return .error failure
  | .ok count =>
      let contents ← (List.range count).foldlM
        (takeOneRecord disk.index.contents disk.blob.contents)
          ⟨[], tornTailRecords disk.index.contents⟩
      return .ok contents

end Trapping

section Steps

theorem takeValue_readLe {width : Nat} {raw : Bytes} {offset : Nat}
    (inside : offset + width ≤ raw.length) :
    takeValue (ByteReader.readLe width raw offset) = some (readLe width raw offset) := by
  rw [ByteReader.readLe_eq_ok_iff.mpr ⟨inside, rfl⟩]
  rfl

theorem viewOf_inside {raw : Bytes} {offset count : Nat} (inside : offset + count ≤ raw.length) :
    viewOf raw offset count = some (slice raw offset count) := if_pos inside

theorem readInside_inside {file : Bytes} {offset length : Nat}
    (inside : offset + length ≤ file.length) :
    readInside file offset length = some (readAt file offset length) := if_pos inside

theorem length_readAt (file : Bytes) (offset length : Nat) :
    (readAt file offset length).length = length := by
  have short : (slice file offset length).length ≤ length := List.length_take_le length _
  rw [readAt, List.length_append, List.length_replicate]
  omega

theorem takeRecord_eq {raw : Bytes} (whole : raw.length = kRecordBytes) :
    takeRecord raw = some (decodeRecord raw) := by
  have view : viewOf raw 0 kRecordBytes = some raw := by
    rw [viewOf_inside (by omega), slice, List.drop_zero, ← whole, List.take_length]
  have field {width at_ : Nat} (inside : at_ + width ≤ kRecordBytes) :
      takeValue (ByteReader.readLe width raw at_) = some (readLe width raw at_) :=
    takeValue_readLe (by omega)
  simp only [takeRecord, view, Option.bind_eq_bind, Option.bind_some]
  rw [field (by decide), field (by decide), field (by decide), field (by decide),
    field (by decide), field (by decide), field (by decide), field (by decide), field (by decide)]
  rfl

theorem takeHeaderIsOurs_eq (raw : Bytes) : takeHeaderIsOurs raw = some (headerIsOurs raw) := by
  unfold takeHeaderIsOurs headerIsOurs
  by_cases long : raw.length < kIndexHeaderBytes
  · simp [long, Nat.not_le.mpr long]
  · by_cases opens : raw.take kIndexMagic.length = kIndexMagic
    · have version : takeValue (ByteReader.readLe 4 raw kVersionAt) =
          some (readLe 4 raw kVersionAt) :=
        takeValue_readLe ((by decide : kVersionAt + 4 ≤ kIndexHeaderBytes).trans (Nat.not_lt.mp long))
      have recordSize : takeValue (ByteReader.readLe 4 raw kRecordSizeAt) =
          some (readLe 4 raw kRecordSizeAt) :=
        takeValue_readLe
          ((by decide : kRecordSizeAt + 4 ≤ kIndexHeaderBytes).trans (Nat.not_lt.mp long))
      simp [long, opens, version, recordSize, Nat.not_lt.mp long]
    · simp [opens]

theorem mapM_some {Item Value : Type} {items : List Item} {step : Item → Option Value}
    {value : Item → Value} (each : ∀ item ∈ items, step item = some (value item)) :
    items.mapM step = some (items.map value) := by
  induction items with
  | nil => rfl
  | cons item items ih =>
      rw [List.mapM_cons, each item List.mem_cons_self,
        ih fun later member => each later (List.mem_cons_of_mem item member)]
      rfl

theorem foldlM_some {Item State : Type} {items : List Item} {step : State → Item → Option State}
    {next : State → Item → State}
    (each : ∀ state, ∀ item ∈ items, step state item = some (next state item)) (state : State) :
    items.foldlM step state = some (items.foldl next state) := by
  induction items generalizing state with
  | nil => rfl
  | cons item items ih =>
      rw [List.foldlM_cons, each state item List.mem_cons_self]
      exact ih (fun state later member => each state later (List.mem_cons_of_mem item member)) _

theorem takeExtents_eq {raw : Bytes} {count : Nat} (whole : raw.length = count * kExtentBytes) :
    takeExtents raw count = some (decodeExtents raw count) := by
  refine mapM_some fun ordinal member => ?_
  have before := List.mem_range.mp member
  have inside : ordinal * kExtentBytes + kExtentBytes ≤ raw.length := by
    rw [whole, ← Nat.succ_mul]
    exact Nat.mul_le_mul_right kExtentBytes before
  unfold kExtentBytes at inside ⊢
  rw [takeValue_readLe (by omega), takeValue_readLe (by omega)]
  rfl

theorem takeCandidate_eq {record : CandidateRecord} {entry : Bytes}
    (whole : entry.length = entryBytes record) :
    takeCandidate record entry = some (decodeCandidate record entry) := by
  unfold entryBytes at whole
  have extents : (slice entry record.nameLength.toNat
      (record.extentCount.toNat * kExtentBytes)).length = record.extentCount.toNat * kExtentBytes :=
    length_slice (by omega)
  have resident : slice entry (entry.length - record.residentLength.toNat)
      record.residentLength.toNat = entry.drop (entry.length - record.residentLength.toNat) := by
    rw [slice, List.take_of_length_le]
    rw [List.length_drop]
    omega
  have name : viewOf entry 0 record.nameLength.toNat = some (entry.take record.nameLength.toNat) := by
    rw [viewOf_inside (by omega), slice, List.drop_zero]
  rw [takeCandidate, name, viewOf_inside (by omega), viewOf_inside (by omega), resident]
  simp only [Option.bind_eq_bind, Option.bind_some, takeExtents_eq extents]
  rfl

theorem takeRead_eq (record : CandidateRecord) (blob : Bytes) :
    takeRead record blob = some (readCandidate record blob) := by
  unfold takeRead readCandidate
  split
  · rfl
  case isFalse sane =>
    have fits : blobRangeFits record blob.length = true := by
      by_contra misfit
      exact sane (by simp [misfit])
    simp only [blobRangeFits, Bool.and_eq_true, decide_eq_true_eq] at fits
    rw [readInside_inside (by omega)]
    simp only [Option.bind_eq_bind, Option.bind_some, takeCandidate_eq (length_readAt blob _ _)]
    rfl

theorem takeRecordCount_eq (records : Bytes) :
    takeRecordCount records = some (recordCount records) := by
  unfold takeRecordCount recordCount
  by_cases short : records.length < kIndexHeaderBytes
  · simp [short]
  · rw [readInside_inside (by omega)]
    simp only [short, if_false, false_or, Option.bind_eq_bind, Option.bind_some, takeHeaderIsOurs_eq]
    cases headerIsOurs (readAt records 0 kIndexHeaderBytes) <;> rfl

/-- How many whole records stand behind the header. -/
def wholeCount (records : Bytes) : Nat := (records.length - kIndexHeaderBytes) / kRecordBytes

theorem record_inside {records : Bytes} {ordinal : Nat} (before : ordinal < wholeCount records) :
    kIndexHeaderBytes + ordinal * kRecordBytes + kRecordBytes ≤ records.length := by
  have fits := (Nat.le_div_iff_mul_le (by decide : 0 < kRecordBytes)).mp before
  rw [Nat.succ_mul] at fits
  have some_ : 0 < kRecordBytes := by decide
  omega

theorem takeOneRecord_eq {records : Bytes} (blob : Bytes) (contents : IndexContents) {ordinal : Nat}
    (before : ordinal < wholeCount records) :
    takeOneRecord records blob contents ordinal =
      some (readOneRecord records blob contents ordinal) := by
  rw [takeOneRecord, readInside_inside (record_inside before)]
  simp only [Option.bind_eq_bind, Option.bind_some, takeRecord_eq (length_readAt records _ _),
    takeRead_eq]
  rfl

theorem recordCount_ok {records : Bytes} {count : Nat} (counted : recordCount records = .ok count) :
    count = wholeCount records ∧ count ≤ kMaxIndexedCandidates := by
  unfold recordCount boundedCount at counted
  split at counted
  · cases counted
  · split at counted
    · cases counted
    case isFalse few =>
      cases counted
      exact ⟨rfl, by omega⟩

/-- Nothing the two files hold makes a step trap. -/
theorem takeIndex_eq (disk : SessionDisk) : takeIndex disk = some (readIndex disk) := by
  rw [takeIndex, takeRecordCount_eq, readIndex]
  cases counted : recordCount disk.index.contents with
  | error failure => rfl
  | ok count =>
      obtain ⟨rfl, -⟩ := recordCount_ok counted
      have each : ∀ contents, ∀ ordinal ∈ List.range (wholeCount disk.index.contents),
          takeOneRecord disk.index.contents disk.blob.contents contents ordinal =
            some (readOneRecord disk.index.contents disk.blob.contents contents ordinal) :=
        fun contents ordinal member =>
          takeOneRecord_eq disk.blob.contents contents (List.mem_range.mp member)
      simp only [Option.bind_eq_bind, Option.bind_some, foldlM_some each]
      rfl

end Steps
section Contents

/-- The record at an ordinal, as it stands in the file. -/
def recordAt (records : Bytes) (ordinal : Nat) : CandidateRecord :=
  decodeRecord (slice records (kIndexHeaderBytes + ordinal * kRecordBytes) kRecordBytes)

/-- The name, the extents and the resident content of a record's entry, and where in
the blob each of them is. -/
structure InBlob (record : CandidateRecord) (blob : Bytes) (candidate : Candidate) : Prop where
  nameInside : record.blobOffset.toNat + record.nameLength.toNat ≤ blob.length
  name : candidate.name = slice blob record.blobOffset.toNat record.nameLength.toNat
  extentsInside : record.blobOffset.toNat + record.nameLength.toNat +
    record.extentCount.toNat * kExtentBytes ≤ blob.length
  extents : candidate.extents = decodeExtents
    (slice blob (record.blobOffset.toNat + record.nameLength.toNat)
      (record.extentCount.toNat * kExtentBytes)) record.extentCount.toNat
  residentInside : record.blobOffset.toNat + record.nameLength.toNat +
    record.extentCount.toNat * kExtentBytes + record.residentLength.toNat ≤ blob.length
  resident : candidate.residentContent = slice blob (record.blobOffset.toNat +
    record.nameLength.toNat + record.extentCount.toNat * kExtentBytes) record.residentLength.toNat

theorem inBlob_of_readCandidate {record : CandidateRecord} {blob : Bytes} {candidate : Candidate}
    (read : readCandidate record blob = some candidate) : InBlob record blob candidate := by
  unfold readCandidate at read
  split at read
  · cases read
  case isFalse sane =>
    have fits : blobRangeFits record blob.length = true := by
      by_contra misfit
      exact sane (by simp [misfit])
    simp only [blobRangeFits, Bool.and_eq_true, decide_eq_true_eq] at fits
    have inside : record.blobOffset.toNat + entryBytes record ≤ blob.length := by omega
    rw [readAt_of_fits inside] at read
    cases read
    have whole : (slice blob record.blobOffset.toNat (entryBytes record)).length =
        entryBytes record := length_slice inside
    unfold entryBytes at inside whole ⊢
    refine ⟨by omega, ?_, by omega, ?_, by omega, ?_⟩
    · have front : slice (slice blob record.blobOffset.toNat (entryBytes record)) 0
          record.nameLength.toNat = slice blob (record.blobOffset.toNat + 0) record.nameLength.toNat :=
        slice_slice (by unfold entryBytes; omega)
      exact front
    · have middle : slice (slice blob record.blobOffset.toNat (entryBytes record))
          record.nameLength.toNat (record.extentCount.toNat * kExtentBytes) =
            slice blob (record.blobOffset.toNat + record.nameLength.toNat)
              (record.extentCount.toNat * kExtentBytes) :=
        slice_slice (by unfold entryBytes; omega)
      exact congrArg (decodeExtents · record.extentCount.toNat) middle
    · have back : (slice blob record.blobOffset.toNat (entryBytes record)).drop
          (record.nameLength.toNat + record.extentCount.toNat * kExtentBytes) =
            slice blob (record.blobOffset.toNat +
              (record.nameLength.toNat + record.extentCount.toNat * kExtentBytes))
                (entryBytes record -
                  (record.nameLength.toNat + record.extentCount.toNat * kExtentBytes)) :=
        drop_slice blob _ _ _
      unfold entryBytes at back
      rw [Nat.add_sub_cancel_left, ← Nat.add_assoc] at back
      simp only [decodeCandidate, whole, Nat.add_sub_cancel]
      exact back

/-- What reading an index comes to. -/
structure ReadsWhole (disk : SessionDisk) (contents : IndexContents) : Prop where
  capped : wholeCount disk.index.contents ≤ kMaxIndexedCandidates
  inBlob : ∀ candidate ∈ contents.candidates, ∃ ordinal < wholeCount disk.index.contents,
    InBlob (recordAt disk.index.contents ordinal) disk.blob.contents candidate
  counted : contents.candidates.length + contents.droppedRecords =
    wholeCount disk.index.contents + tornTailRecords disk.index.contents

/-- Every record read is one more candidate or one more that was dropped. -/
theorem foldl_readOneRecord_counts (records blob : Bytes) (ordinals : List Nat)
    (contents : IndexContents) :
    (ordinals.foldl (readOneRecord records blob) contents).candidates.length +
        (ordinals.foldl (readOneRecord records blob) contents).droppedRecords =
      contents.candidates.length + contents.droppedRecords + ordinals.length := by
  induction ordinals generalizing contents with
  | nil => rfl
  | cons ordinal ordinals ih =>
      have one : (readOneRecord records blob contents ordinal).candidates.length +
          (readOneRecord records blob contents ordinal).droppedRecords =
            contents.candidates.length + contents.droppedRecords + 1 := by
        unfold readOneRecord appendCandidate
        dsimp only
        split <;> simp <;> omega
      rw [List.foldl_cons, ih, one, List.length_cons]
      omega

theorem foldl_readOneRecord_inBlob {records blob : Bytes} {ordinals : List Nat}
    (before : ∀ ordinal ∈ ordinals, ordinal < wholeCount records) {contents : IndexContents}
    (held : ∀ candidate ∈ contents.candidates, ∃ ordinal < wholeCount records,
      InBlob (recordAt records ordinal) blob candidate) :
    ∀ candidate ∈ (ordinals.foldl (readOneRecord records blob) contents).candidates,
      ∃ ordinal < wholeCount records, InBlob (recordAt records ordinal) blob candidate := by
  induction ordinals generalizing contents with
  | nil => exact held
  | cons ordinal ordinals ih =>
      have here := before ordinal List.mem_cons_self
      refine ih (fun later member => before later (List.mem_cons_of_mem ordinal member)) ?_
      intro candidate member
      rw [readOneRecord, readAt_of_fits (record_inside here)] at member
      unfold appendCandidate at member
      split at member
      · exact held candidate member
      case h_2 found read =>
        rcases List.mem_append.mp member with old | new
        · exact held candidate old
        · rw [List.mem_singleton.mp new]
          exact ⟨ordinal, here, inBlob_of_readCandidate read⟩

/-- Whatever the two files hold, no step of the reader traps, and it comes to a typed
error or to what the whole records and the blob say. -/
theorem readIndex_total (disk : SessionDisk) :
    takeIndex disk = some (readIndex disk) ∧
      ((∃ failure, readIndex disk = .error failure) ∨
        ∃ contents, readIndex disk = .ok contents ∧ ReadsWhole disk contents) := by
  refine ⟨takeIndex_eq disk, ?_⟩
  cases counted : recordCount disk.index.contents with
  | error failure => exact .inl ⟨failure, by rw [readIndex, counted]; rfl⟩
  | ok count =>
      obtain ⟨rfl, capped⟩ := recordCount_ok counted
      refine .inr ⟨readAll disk.index.contents disk.blob.contents _, by rw [readIndex, counted]; rfl,
        capped, ?_, ?_⟩
      · refine foldl_readOneRecord_inBlob (fun ordinal member => List.mem_range.mp member) ?_
        exact List.forall_mem_nil _
      · rw [readAll, foldl_readOneRecord_counts, List.length_range, List.length_nil, Nat.zero_add,
          Nat.add_comm]

end Contents

end CandidateIndex
end Revenant
