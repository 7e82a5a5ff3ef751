import Revenant.CarverReading

/-!
# Carving ZIP archives

An archive ends behind the last end record in the data and its comment.  A directory
whose arithmetic lands on the record and whose head is a directory header makes the
archive a valid one.
-/

namespace Revenant
namespace ZipCarver

open ByteLayout

section EndRecord

def kEndRecordBytes : Nat := 22

def kEntryCountOffset : Nat := 10

def kDirectorySizeOffset : Nat := 12

def kDirectoryOffsetOffset : Nat := 16

def kCommentLengthOffset : Nat := 20

def kEndSignature : Bytes := [0x50, 0x4B, 0x05, 0x06]

def kDirectorySignature : Bytes := [0x50, 0x4B, 0x01, 0x02]

/-- A located end record and what it says about the archive. -/
structure ZipEndRecord where
  offset : Nat
  end_ : Nat
  centralDirectoryOffset : Nat
  entryCount : Nat
  centralDirectoryChecksOut : Bool

variable (data : Bytes)

/-- The *last* signature matters: an archive may contain another one's bytes. -/
def lastSignatureOffset : Result Nat :=
  match ByteReader.bytes data 0 data.length with
  | .error _ => .error { code := .kNotFound, offset := 0 }
  | .ok all =>
      match findEnd kEndSignature all with
      | none => .error { code := .kNotFound, offset := 0 }
      | some found => .ok found

def directoryChecksOut (eocd directoryOffset : Nat) : Bool :=
  match ByteReader.readLe 4 data (eocd + kDirectorySizeOffset) with
  | .error _ => false
  | .ok size =>
      if directoryOffset + size ≠ eocd then false
      else
        match ByteReader.bytes data directoryOffset kDirectorySignature.length with
        | .error _ => false
        | .ok head => head == kDirectorySignature

/-- The entry count is read without a check: the comment length behind it was read. -/
def entryCount (offset : Nat) : Nat :=
  match ByteReader.readLe 2 data (offset + kEntryCountOffset) with
  | .error _ => 0
  | .ok count => count

def readEndRecord (offset : Nat) : Result ZipEndRecord := do
  let comment ← ByteReader.readLe 2 data (offset + kCommentLengthOffset)
  let directory ← ByteReader.readLe 4 data (offset + kDirectoryOffsetOffset)
  return {
    offset := offset
    end_ := offset + kEndRecordBytes + comment
    centralDirectoryOffset := directory
    entryCount := entryCount data offset
    centralDirectoryChecksOut := directoryChecksOut data offset directory }

def findZipEndRecord : Result ZipEndRecord := do
  let offset ← lastSignatureOffset data
  readEndRecord data offset

end EndRecord

section Carver

def kNameSampleBytes : Nat := 64

def kLocalHeaderSignature : Bytes := [0x50, 0x4B, 0x03, 0x04]

def kOfficePrefixes : List (Bytes × Bytes) :=
  [(ascii "word/", ascii "docx"), (ascii "xl/", ascii "xlsx"), (ascii "ppt/", ascii "pptx")]

/-- The opening bytes of the central directory, read as text. -/
def directorySample (data : Bytes) (record : ZipEndRecord) : Bytes :=
  match ByteReader.bytes data record.centralDirectoryOffset kNameSampleBytes with
  | .error _ => []
  | .ok raw => raw

def holds (text needle : Bytes) : Bool := text.tails.any needle.isPrefixOf

def extensionFor (data : Bytes) (record : ZipEndRecord) : Bytes :=
  let sample := directorySample data record
  match kOfficePrefixes.find? fun office => holds sample office.1 with
  | some office => office.2
  | none => ascii "zip"

def rejected : CarveResult := ⟨0, .kRejected, ascii "zip"⟩

def verdictFor (data : Bytes) (record : ZipEndRecord) : CarveResult :=
  let whole := record.centralDirectoryChecksOut && record.end_ ≤ data.length
  ⟨UInt64.ofNat (min record.end_ data.length), if whole then .kValid else .kUncertain,
    extensionFor data record⟩

def signatures : List Signature := [⟨kLocalHeaderSignature, 0⟩]

def carve (data : Bytes) : Result CarveResult :=
  if !headMatches data kLocalHeaderSignature then .ok rejected
  else match findZipEndRecord data with
    | .error _ => .ok rejected
    | .ok record => .ok (verdictFor data record)

end Carver

section Reading

variable {data : Bytes}

/-- The unchecked read of the entry count is inside the buffer. -/
theorem readLe_entryCount {offset comment : Nat}
    (read : ByteReader.readLe 2 data (offset + kCommentLengthOffset) = .ok comment) :
    ByteReader.readLe 2 data (offset + kEntryCountOffset) = .ok (entryCount data offset) := by
  have inside := (ByteReader.readLe_eq_ok_iff.mp read).1
  have counted : ByteReader.readLe 2 data (offset + kEntryCountOffset) =
      .ok (ByteLayout.readLe 2 data (offset + kEntryCountOffset)) := by
    refine ByteReader.readLe_eq_ok_iff.mpr ⟨?_, rfl⟩
    unfold kCommentLengthOffset at inside
    unfold kEntryCountOffset
    omega
  rw [entryCount, counted]

theorem findZipEndRecord_eq_ok_iff {record : ZipEndRecord} :
    findZipEndRecord data = .ok record ↔
      findEnd kEndSignature data = some record.offset ∧
        readEndRecord data record.offset = .ok record := by
  have all : ByteReader.bytes data 0 data.length = .ok data :=
    ByteReader.bytes_eq_ok_iff_standsAt.mpr ⟨rfl, standsAt_zero.mpr List.prefix_rfl⟩
  rw [findZipEndRecord, bind_eq_ok_iff]
  simp only [lastSignatureOffset, all]
  constructor
  · rintro ⟨offset, found, read⟩
    have placed : record.offset = offset := by
      simp only [readEndRecord, bind_eq_ok_iff, pure_eq_ok_iff] at read
      obtain ⟨_, _, _, _, rfl⟩ := read
      rfl
    cases last : findEnd kEndSignature data with
    | none =>
        rw [last] at found
        cases found
    | some place =>
        rw [last] at found
        cases found
        rw [placed]
        exact ⟨rfl, read⟩
  · rintro ⟨last, read⟩
    rw [last]
    exact ⟨_, rfl, read⟩

theorem end_of_readEndRecord {offset : Nat} {record : ZipEndRecord}
    (read : readEndRecord data offset = .ok record) :
    record.offset = offset ∧ offset + kEndRecordBytes ≤ record.end_ := by
  simp only [readEndRecord, bind_eq_ok_iff, pure_eq_ok_iff] at read
  obtain ⟨comment, -, directory, -, rfl⟩ := read
  exact ⟨rfl, Nat.le_add_right _ _⟩

/-- A record inside the first part of a buffer is read there as in the whole. -/
theorem readEndRecord_take {length offset : Nat} (inside : offset + kEndRecordBytes ≤ length)
    (short : length ≤ data.length) :
    readEndRecord (data.take length) offset = readEndRecord data offset := by
  have reads (width field : Nat) (inner : field + width ≤ kEndRecordBytes) :
      ByteReader.readLe width (data.take length) (offset + field) =
        ByteReader.readLe width data (offset + field) := by
    refine ByteReader.readLe_take ?_ short
    omega
  have size := reads 4 kDirectorySizeOffset (by decide)
  have count := reads 2 kEntryCountOffset (by decide)
  have directory := reads 4 kDirectoryOffsetOffset (by decide)
  have comment := reads 2 kCommentLengthOffset (by decide)
  have checks (directory : Nat) : directoryChecksOut (data.take length) offset directory =
      directoryChecksOut data offset directory := by
    unfold directoryChecksOut
    rw [size]
    cases ByteReader.readLe 4 data (offset + kDirectorySizeOffset) with
    | error error => rfl
    | ok size =>
        by_cases lands : directory + size ≠ offset
        · simp only [if_pos lands]
        · have before : directory + kDirectorySignature.length ≤ length := by
            unfold kEndRecordBytes at inside
            have four : kDirectorySignature.length = 4 := rfl
            omega
          simp only [if_neg lands, ByteReader.bytes_take before short]
  unfold readEndRecord entryCount
  rw [comment, directory, count]
  simp only [checks]

theorem carve_of_record (opens : kLocalHeaderSignature <+: data) {record : ZipEndRecord}
    (found : findZipEndRecord data = .ok record) : carve data = .ok (verdictFor data record) := by
  simp [carve, headMatches_iff.mpr opens, found]

theorem carve_of_not_opens (other : ¬ kLocalHeaderSignature <+: data) :
    carve data = .ok rejected := by
  simp [carve, headMatches_eq_false_iff.mpr other]

theorem carve_of_error {error : Error} (missing : findZipEndRecord data = .error error) :
    carve data = .ok rejected := by
  simp [carve, missing]

/-- What the carver calls valid: the last end record checks out and ends the bytes. -/
theorem carvesValid_iff (buffer : ByteSpan) (length : Nat) :
    CarvesValid carve buffer.data length ↔
      kLocalHeaderSignature <+: buffer.data ∧ length ≤ buffer.data.length ∧
        ∃ record, findEnd kEndSignature buffer.data = some record.offset ∧
          readEndRecord buffer.data record.offset = .ok record ∧
            record.centralDirectoryChecksOut = true ∧ record.end_ = length := by
  by_cases opens : kLocalHeaderSignature <+: buffer.data
  · constructor
    · intro valid
      cases found : findZipEndRecord buffer.data with
      | error error =>
          rw [carvesValid_iff_of_eq (carve_of_error found)] at valid
          exact nomatch valid.1
      | ok record =>
          rw [carvesValid_iff_of_eq (carve_of_record opens found)] at valid
          obtain ⟨valid, measured⟩ := valid
          obtain ⟨last, read⟩ := findZipEndRecord_eq_ok_iff.mp found
          have whole : record.centralDirectoryChecksOut = true ∧
              record.end_ ≤ buffer.data.length := by
            by_contra not_
            have partly : (record.centralDirectoryChecksOut &&
                decide (record.end_ ≤ buffer.data.length)) = false := by
              simpa [not_and] using not_
            simp only [verdictFor, partly, Bool.false_eq_true, if_false, reduceCtorEq] at valid
          have measure := buffer.toNat_ofNat (Nat.min_le_right record.end_ buffer.data.length)
          have ends : record.end_ = length := by
            rw [← measured]
            exact (measure.trans (Nat.min_eq_left whole.2)).symm
          exact ⟨opens, ends ▸ whole.2, record, last, read, whole.1, ends⟩
    · rintro ⟨-, inside, record, last, read, checks, rfl⟩
      have found := findZipEndRecord_eq_ok_iff.mpr ⟨last, read⟩
      rw [carvesValid_iff_of_eq (carve_of_record opens found)]
      constructor
      · simp [verdictFor, checks, inside]
      · have measure := buffer.toNat_ofNat (Nat.min_le_right record.end_ buffer.data.length)
        exact measure.trans (Nat.min_eq_left inside)
  · rw [carvesValid_iff_of_eq (carve_of_not_opens opens)]
    exact iff_of_false (fun rejected => nomatch rejected.1) fun valid => opens valid.1

end Reading

end ZipCarver
end Revenant
