import Mathlib.Data.List.Infix
import Revenant.CrashSafety
import Revenant.IndexingVisitors

/-!
# What a session's files hold

A record describes a candidate as long as its entry stands in the blob at the
place the record points to.  Bytes appended behind change nothing about that, so
what the flushed files hold only grows, and a crash takes none of it.
-/

namespace Revenant
namespace CandidateIndex

open ByteLayout CandidateRecord IndexingVisitors

/-- The candidate a record reads back as, wherever its entry stands. -/
def stored (candidate : Candidate) : Option Candidate :=
  readCandidate (recordFor candidate 0) (encodeBlobEntry candidate)

/-- The record points at the candidate's entry in the blob. -/
def Describes (blob : Bytes) (record : CandidateRecord) (candidate : Candidate) : Prop :=
  ∃ offset, offset < 2 ^ 64 ∧ offset ≤ blob.length ∧ record = recordFor candidate offset ∧
    encodeBlobEntry candidate <+: blob.drop offset

theorem Describes.grow {blob longer : Bytes} {record : CandidateRecord} {candidate : Candidate}
    (describes : Describes blob record candidate) (grows : blob <+: longer) :
    Describes longer record candidate := by
  obtain ⟨offset, word, inside, rfl, there⟩ := describes
  exact ⟨offset, word, inside.trans grows.length_le, rfl, there.trans (List.IsPrefix.drop grows offset)⟩

/-- A candidate appended to the blob is described by the record written for it. -/
theorem describes_appended (blob : Bytes) (candidate : Candidate) (word : blob.length < 2 ^ 64) :
    Describes (blob ++ encodeBlobEntry candidate) (recordFor candidate blob.length) candidate := by
  refine ⟨blob.length, word, by simp, rfl, ?_⟩
  rw [List.drop_left]

theorem blobRangeFits_recordFor (candidate : Candidate) (offset : Nat) (blob : Bytes)
    (word : offset < 2 ^ 64)
    (fits : offset + (encodeBlobEntry candidate).length ≤ blob.length) :
    blobRangeFits (recordFor candidate offset) blob.length = true ∧
      readAt blob (recordFor candidate offset).blobOffset.toNat
          (entryBytes (recordFor candidate offset)) =
        (blob.drop offset).take (entryBytes (recordFor candidate offset)) := by
  have needed := entryBytes_le candidate offset
  have place : (recordFor candidate offset).blobOffset.toNat = offset := by
    simp only [recordFor, UInt64.toNat_ofNat']
    exact Nat.mod_eq_of_lt word
  constructor
  · simp only [blobRangeFits, place, Bool.and_eq_true, decide_eq_true_eq]
    omega
  · rw [place, readAt_of_fits (by omega), slice]

/-- What a record reads back as does not depend on where its entry stands. -/
theorem readCandidate_of_describes {blob : Bytes} {record : CandidateRecord}
    {candidate : Candidate} (describes : Describes blob record candidate) :
    readCandidate record blob = stored candidate := by
  obtain ⟨offset, word, inside, rfl, rest, there⟩ := describes
  have fits : offset + (encodeBlobEntry candidate).length ≤ blob.length := by
    have whole := congrArg List.length there
    rw [List.length_append, List.length_drop] at whole
    omega
  obtain ⟨rangeFits, read⟩ := blobRangeFits_recordFor candidate offset blob word fits
  obtain ⟨rangeFitsAlone, readAlone⟩ := blobRangeFits_recordFor candidate 0
    (encodeBlobEntry candidate) (by decide) (by simp)
  have sane : lengthsAreSane (recordFor candidate offset) = lengthsAreSane (recordFor candidate 0) :=
    rfl
  have same : (blob.drop offset).take (entryBytes (recordFor candidate offset)) =
      (encodeBlobEntry candidate).take (entryBytes (recordFor candidate 0)) := by
    rw [← there, List.take_append_of_le_length (entryBytes_le candidate offset)]
    rfl
  rw [stored, readCandidate, readCandidate, rangeFits, rangeFitsAlone, read, readAlone, same, sane]
  rfl

/-- Files whose flushed bytes begin with the records of these candidates. -/
def Holds (disk : SessionDisk) (candidates : List Candidate) : Prop :=
  ∃ records : List CandidateRecord,
    encodeIndexHeader ++ records.flatMap encodeRecord <+: disk.index.flushed ∧
      List.Forall₂ (Describes disk.blob.flushed) records candidates

theorem Holds.grow {disk later : SessionDisk} {candidates : List Candidate}
    (holds : Holds disk candidates) (index : disk.index.flushed <+: later.index.flushed)
    (blob : disk.blob.flushed <+: later.blob.flushed) : Holds later candidates := by
  obtain ⟨records, written, described⟩ := holds
  exact ⟨records, written.trans index, described.imp fun _ _ describes => describes.grow blob⟩

/-- An index under way: nothing is buffered, the files hold the candidates and
nothing else, and the index knows how far they reach. -/
structure Live (disk : SessionDisk) (index : CandidateIndex) (candidates : List Candidate) :
    Prop where
  settled : disk.index.pending = [] ∧ disk.blob.pending = []
  held : ∃ records : List CandidateRecord,
    disk.index.flushed = encodeIndexHeader ++ records.flatMap encodeRecord ∧
      List.Forall₂ (Describes disk.blob.flushed) records candidates
  counted : index.count = candidates.length
  reached : index.blobBytes = disk.blob.flushed.length

theorem Live.holds {disk : SessionDisk} {index : CandidateIndex} {candidates : List Candidate}
    (live : Live disk index candidates) : Holds disk candidates := by
  obtain ⟨records, written, described⟩ := live.held
  exact ⟨records, written ▸ List.prefix_rfl, described⟩

theorem Live.length_index {disk : SessionDisk} {index : CandidateIndex}
    {candidates : List Candidate} (live : Live disk index candidates) :
    disk.index.contents.length = recordAreaBytes candidates.length := by
  obtain ⟨records, written, described⟩ := live.held
  rw [Stream.contents, live.settled.1, List.append_nil, written, List.length_append,
    length_encodeIndexHeader, length_encodeRecords, described.length_eq, recordAreaBytes]

/-- What reading back a list of candidates comes to. -/
def readBack (candidates : List Candidate) : Result IndexContents :=
  if candidates.length > kMaxIndexedCandidates then .error { code := .kOutOfRange }
  else .ok ⟨candidates.filterMap stored,
    (candidates.filter fun candidate => (stored candidate).isNone).length⟩

theorem filterMap_describes {blob : Bytes} {records : List CandidateRecord}
    {candidates : List Candidate} (described : List.Forall₂ (Describes blob) records candidates) :
    records.filterMap (readCandidate · blob) = candidates.filterMap stored ∧
      (records.filter fun record => (readCandidate record blob).isNone).length =
        (candidates.filter fun candidate => (stored candidate).isNone).length := by
  induction described with
  | nil => exact ⟨rfl, rfl⟩
  | cons describes _ ih =>
      have here := readCandidate_of_describes describes
      obtain ⟨found, dropped⟩ := ih
      simp only [List.filterMap_cons, List.filter_cons, here, found]
      refine ⟨trivial, ?_⟩
      split
      · rw [List.length_cons, List.length_cons, dropped]
      · exact dropped

/-- Reading the index back depends on its candidates alone. -/
theorem Live.readIndex_eq {disk : SessionDisk} {index : CandidateIndex}
    {candidates : List Candidate} (live : Live disk index candidates) :
    readIndex disk = readBack candidates := by
  obtain ⟨records, written, described⟩ := live.held
  have whole : disk.index.contents = encodeIndexHeader ++ records.flatMap encodeRecord := by
    rw [Stream.contents, live.settled.1, List.append_nil, written]
  have blob : disk.blob.contents = disk.blob.flushed := by
    rw [Stream.contents, live.settled.2, List.append_nil]
  obtain ⟨found, dropped⟩ := filterMap_describes described
  rw [CandidateIndex.readIndex_eq whole, blob, found, dropped, described.length_eq, readBack]

end CandidateIndex

/-- A session directory as processes see it. -/
def sessionModel : CrashModel SessionDisk Effect where
  perform := SessionDisk.perform
  Room := SessionDisk.Addressable
  Tears := SessionDisk.Tears

namespace CandidateIndex

open ByteLayout CandidateRecord

section Writing

variable {Durable : SessionDisk → Prop}

/-- A property of what is durable that appending and flushing cannot break. -/
def Grows (Durable : SessionDisk → Prop) : Prop :=
  ∀ disk later : SessionDisk, Durable disk → later.checkpoint = disk.checkpoint →
    disk.index.flushed <+: later.index.flushed → disk.blob.flushed <+: later.blob.flushed →
      Durable later

/-- Appending one candidate is safe, and leaves an index that holds it too. -/
theorem safe_writeEntry (grows : Grows Durable) {disk : SessionDisk} {index : CandidateIndex}
    {candidates : List Candidate} (durable : Durable disk) (live : Live disk index candidates)
    (candidate : Candidate) :
    sessionModel.Safe Durable
      (fun later => Live later (index.writeEntry candidate).2 (candidates ++ [candidate]))
      (index.writeEntry candidate).1 disk := by
  obtain ⟨records, written, described⟩ := live.held
  obtain ⟨indexSettled, blobSettled⟩ := live.settled
  have blobNow : disk.blob.contents = disk.blob.flushed := by
    rw [Stream.contents, blobSettled, List.append_nil]
  have indexNow : disk.index.contents = disk.index.flushed := by
    rw [Stream.contents, indexSettled, List.append_nil]
  refine ⟨durable, fun _ => ?_⟩
  refine ⟨grows disk _ durable rfl List.prefix_rfl List.prefix_rfl, fun roomForEntry => ?_⟩
  have entryFits : (disk.blob.flushed ++ encodeBlobEntry candidate).length < 2 ^ 63 := by
    have := roomForEntry.2
    simpa [sessionModel, SessionDisk.perform, SessionDisk.update, blobNow] using this
  refine ⟨grows disk _ durable rfl List.prefix_rfl ?_, fun _ => ?_⟩
  · simp [sessionModel, SessionDisk.perform, SessionDisk.update, blobNow]
  refine ⟨grows disk _ durable rfl List.prefix_rfl ?_, fun _ => ?_⟩
  · simp [sessionModel, SessionDisk.perform, SessionDisk.update, blobNow]
  refine ⟨grows disk _ durable rfl ?_ ?_, ?_⟩
  · simp [sessionModel, SessionDisk.perform, SessionDisk.update, indexNow]
  · simp [sessionModel, SessionDisk.perform, SessionDisk.update, blobNow]
  rw [List.length_append] at entryFits
  constructor
  · simp [sessionModel, SessionDisk.perform, SessionDisk.update, Stream.flush, Stream.append]
  · refine ⟨records ++ [recordFor candidate index.blobBytes], ?_, ?_⟩
    · simp [sessionModel, SessionDisk.perform, SessionDisk.update, indexNow, written]
    · have blobLater : ∀ record earlier, Describes disk.blob.flushed record earlier →
          Describes (disk.blob.flushed ++ encodeBlobEntry candidate) record earlier :=
        fun _ _ describes => describes.grow (List.prefix_append _ _)
      have here := describes_appended disk.blob.flushed candidate (by omega)
      simp only [sessionModel, SessionDisk.perform, SessionDisk.update, Stream.flushed_flush,
        Stream.contents_append, blobNow, live.reached]
      exact (List.rel_append (R := Describes _)) (described.imp blobLater) (.cons here .nil)
  · simp [CandidateIndex.writeEntry, live.counted]
  · simp only [CandidateIndex.writeEntry, live.reached, sessionModel, SessionDisk.perform,
      SessionDisk.update, Stream.flushed_flush, Stream.contents_append, blobNow,
      List.length_append]
    omega

end Writing

end CandidateIndex
end Revenant
