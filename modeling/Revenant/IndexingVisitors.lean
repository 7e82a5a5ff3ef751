import Revenant.CandidateIndex
import Revenant.CarveMatches

/-!
# From findings to the index and back

Both passes report into visitors that append to one index.  What arbitration
later reads back is compared with what was appended: the writer enforces none of
the limits the reader enforces, so the two agree exactly when every candidate
and their number stay inside them.
-/

namespace Revenant
namespace IndexingVisitors

open ByteLayout CandidateRecord CandidateIndex

/-- The candidate a filesystem entry is. -/
def candidateOfEntry (entry : RecoveredEntry) : Candidate where
  name := entry.path
  extents := entry.extents
  residentContent := entry.residentContent
  timestamps := entry.timestamps
  confidence := entry.recoverability
  source := .kFilesystem

/-- The candidate a carved file is: its extension is all the name it has. -/
def candidateOfScan (found : ScanCandidate) : Candidate where
  name := found.result.extension
  extents := [⟨UInt64.ofNat found.offset, found.result.length⟩]
  residentContent := []
  timestamps := ⟨0, 0, 0⟩
  confidence := found.result.confidence
  source := .kCarve

/-- What either pass reports. -/
inductive Finding where
  | entry (entry : RecoveredEntry)
  | scan (found : ScanCandidate)

/-- What a visitor appends for a finding: a rejected carve is not indexed. -/
def indexed : Finding → Option Candidate
  | .entry entry => some (candidateOfEntry entry)
  | .scan found =>
      if found.result.confidence = .kRejected then none else some (candidateOfScan found)

/-- Arbitration over everything an index holds. -/
def arbitrateIndex (sorter : Sorter) (disk : SessionDisk) : Result Arbitration := do
  let contents ← readIndex disk
  return Arbitration.arbitrate sorter contents.candidates

/-- The records that appending `candidates` writes. -/
def recordsFrom (index : CandidateIndex) : List Candidate → List CandidateRecord
  | [] => []
  | candidate :: candidates =>
      recordFor candidate index.blobBytes :: recordsFrom (index.writeEntry candidate).2 candidates

theorem performAll_append (first second : List Effect) (disk : SessionDisk) :
    disk.performAll (first ++ second) = (disk.performAll first).performAll second :=
  List.foldl_append

theorem performAll_create (disk : SessionDisk) :
    (disk.performAll CandidateIndex.create.1).index.contents = encodeIndexHeader ∧
      (disk.performAll CandidateIndex.create.1).blob.contents = [] := by
  simp [SessionDisk.performAll, CandidateIndex.create, SessionDisk.perform, SessionDisk.update]

theorem performAll_writeEntry (index : CandidateIndex) (candidate : Candidate)
    (disk : SessionDisk) :
    (disk.performAll (index.writeEntry candidate).1).index.contents =
        disk.index.contents ++ encodeRecord (recordFor candidate index.blobBytes) ∧
      (disk.performAll (index.writeEntry candidate).1).blob.contents =
        disk.blob.contents ++ encodeBlobEntry candidate := by
  simp [SessionDisk.performAll, CandidateIndex.writeEntry, SessionDisk.perform,
    SessionDisk.update]

/-- Appending writes one record a candidate and leaves the blob at least as long
as every record says. -/
theorem performAll_appendAll (candidates : List Candidate) (index : CandidateIndex)
    (disk : SessionDisk) :
    (disk.performAll (index.appendAll candidates).1).index.contents =
        disk.index.contents ++ (recordsFrom index candidates).flatMap encodeRecord ∧
      (disk.performAll (index.appendAll candidates).1).blob.contents =
        disk.blob.contents ++ candidates.flatMap encodeBlobEntry := by
  induction candidates generalizing index disk with
  | nil => simp [CandidateIndex.appendAll, SessionDisk.performAll, recordsFrom]
  | cons candidate candidates ih =>
      obtain ⟨indexHere, blobHere⟩ := performAll_writeEntry index candidate disk
      obtain ⟨indexLater, blobLater⟩ := ih (index.writeEntry candidate).2
        (disk.performAll (index.writeEntry candidate).1)
      rw [CandidateIndex.appendAll, performAll_append]
      constructor
      · rw [indexLater, indexHere, recordsFrom, List.flatMap_cons, List.append_assoc]
      · rw [blobLater, blobHere, List.flatMap_cons, List.append_assoc]

/-- The limits the reader checks, on the lengths a record can hold. -/
def Storable (candidate : Candidate) : Prop :=
  candidate.name.length % 2 ^ 32 ≤ kMaxCandidateNameBytes ∧
    candidate.extents.length % 2 ^ 32 ≤ kMaxCandidateExtents ∧
      candidate.residentContent.length % 2 ^ 32 ≤ kMaxResidentBytes

instance (candidate : Candidate) : Decidable (Storable candidate) :=
  inferInstanceAs (Decidable (_ ∧ _ ∧ _))

theorem lengthsAreSane_recordFor (candidate : Candidate) (blobOffset : Nat) :
    lengthsAreSane (recordFor candidate blobOffset) = true ↔ Storable candidate := by
  have bounded (value bound : Nat) :
      (boundedCount value bound).toBool = true ↔ value ≤ bound := by
    unfold boundedCount
    split <;> simp [Except.toBool] <;> omega
  simp only [lengthsAreSane, Bool.and_eq_true, bounded, recordFor, UInt32.toNat_ofNat', Storable,
    and_assoc]

theorem length_encodeExtents (extents : List Extent) :
    (extents.flatMap encodeExtent).length = extents.length * kExtentBytes := by
  apply length_flatMap_const
  intro extent
  simp [encodeExtent, kExtentBytes]

/-- A record never claims more of the blob than its entry has. -/
theorem entryBytes_le (candidate : Candidate) (blobOffset : Nat) :
    entryBytes (recordFor candidate blobOffset) ≤ (encodeBlobEntry candidate).length := by
  have name := Nat.mod_le candidate.name.length (2 ^ 32)
  have resident := Nat.mod_le candidate.residentContent.length (2 ^ 32)
  have extents := Nat.mul_le_mul_right kExtentBytes
    (Nat.mod_le candidate.extents.length (2 ^ 32))
  simp only [entryBytes, recordFor, UInt32.toNat_ofNat', encodeBlobEntry, List.length_append,
    length_encodeExtents]
  omega

theorem readCandidate_isSome_iff (candidate : Candidate) {blobOffset : Nat} {blob : Bytes}
    (fits : blobOffset + (encodeBlobEntry candidate).length ≤ blob.length) :
    (readCandidate (recordFor candidate blobOffset) blob).isSome = true ↔ Storable candidate := by
  have needed := entryBytes_le candidate blobOffset
  have offsetLe : (recordFor candidate blobOffset).blobOffset.toNat ≤ blobOffset := by
    simp only [recordFor, UInt64.toNat_ofNat']
    exact Nat.mod_le _ _
  have rangeFits : blobRangeFits (recordFor candidate blobOffset) blob.length = true := by
    simp only [blobRangeFits, Bool.and_eq_true, decide_eq_true_eq]
    omega
  rw [← lengthsAreSane_recordFor candidate blobOffset, readCandidate, rangeFits]
  cases lengthsAreSane (recordFor candidate blobOffset) <;> simp

/-- Which of the appended records read back, in the blob they end up with. -/
theorem readable_recordsFrom (candidates : List Candidate) (index : CandidateIndex)
    {written : Nat} {blob : Bytes} (behind : index.blobBytes ≤ written)
    (long : written + (candidates.flatMap encodeBlobEntry).length ≤ blob.length) :
    (recordsFrom index candidates).map (fun record => (readCandidate record blob).isSome) =
      candidates.map fun candidate => decide (Storable candidate) := by
  induction candidates generalizing index written with
  | nil => rfl
  | cons candidate candidates ih =>
      rw [List.flatMap_cons, List.length_append] at long
      have here : (readCandidate (recordFor candidate index.blobBytes) blob).isSome =
          decide (Storable candidate) := by
        rw [Bool.eq_iff_iff, decide_eq_true_eq]
        exact readCandidate_isSome_iff candidate (by omega)
      have wrapped := Nat.mod_le (index.blobBytes + (encodeBlobEntry candidate).length) (2 ^ 64)
      have nextBehind : (index.writeEntry candidate).2.blobBytes ≤
          written + (encodeBlobEntry candidate).length := by
        simp only [CandidateIndex.writeEntry]
        omega
      rw [recordsFrom, List.map_cons, List.map_cons, here, ih _ nextBehind (by omega)]

/-- The session directory after a fresh index was given `candidates`. -/
def indexOf (candidates : List Candidate) (disk : SessionDisk) : SessionDisk :=
  let created := CandidateIndex.create
  disk.performAll (created.1 ++ (created.2.appendAll candidates).1)

theorem readIndex_indexOf (candidates : List Candidate) (disk : SessionDisk) :
    ∃ contents : IndexContents,
      readIndex (indexOf candidates disk) =
          (if candidates.length > kMaxIndexedCandidates then .error { code := .kOutOfRange }
            else .ok contents) ∧
        contents.candidates.length = candidates.countP fun candidate => decide (Storable candidate) := by
  obtain ⟨header, noBlob⟩ := performAll_create disk
  obtain ⟨index, blob⟩ := performAll_appendAll candidates CandidateIndex.create.2
    (disk.performAll CandidateIndex.create.1)
  have files : indexOf candidates disk = (disk.performAll CandidateIndex.create.1).performAll
      (CandidateIndex.create.2.appendAll candidates).1 := performAll_append _ _ _
  rw [← files] at index blob
  rw [header] at index
  rw [noBlob, List.nil_append] at blob
  have long : 0 + (candidates.flatMap encodeBlobEntry).length ≤
      (indexOf candidates disk).blob.contents.length := by
    rw [blob, Nat.zero_add]
  have readable := readable_recordsFrom candidates CandidateIndex.create.2 (Nat.zero_le 0) long
  have counted := congrArg List.length readable
  rw [List.length_map, List.length_map] at counted
  have read := readIndex_eq index
  rw [counted] at read
  refine ⟨_, read, ?_⟩
  have agree := congrArg (List.countP id) readable
  simp only [List.countP_map, Function.comp_def, id] at agree
  rw [List.length_filterMap_eq_countP]
  exact agree

/-- Everything the visitors append is accounted for by arbitration exactly when
every candidate, and their number, is inside the limits the reader enforces. -/
theorem arbitrateIndex_accounts_iff (sorter : Sorter) (findings : List Finding)
    (disk : SessionDisk) :
    (∃ result, arbitrateIndex sorter (indexOf (findings.filterMap indexed) disk) = .ok result ∧
        result.winners.length + result.suppressed = (findings.filterMap indexed).length) ↔
      (∀ candidate ∈ findings.filterMap indexed, Storable candidate) ∧
        (findings.filterMap indexed).length ≤ kMaxIndexedCandidates := by
  generalize findings.filterMap indexed = candidates
  obtain ⟨contents, read, counted⟩ := readIndex_indexOf candidates disk
  have all : contents.candidates.length = candidates.length ↔
      ∀ candidate ∈ candidates, Storable candidate := by
    rw [counted, List.countP_eq_length]
    simp
  rw [arbitrateIndex, read]
  by_cases many : candidates.length > kMaxIndexedCandidates
  · simp only [many, if_true, bind, Except.bind]
    constructor
    · rintro ⟨_, impossible, _⟩
      cases impossible
    · rintro ⟨_, few⟩
      omega
  · simp only [many, if_false, bind, Except.bind, pure, Except.pure, Except.ok.injEq,
      exists_eq_left', Arbitration.length_arbitrate, all]
    exact ⟨fun storable => ⟨storable, Nat.le_of_not_lt many⟩, fun limits => limits.1⟩

/-- A file in one more extent than the reader accepts. -/
def fragmentedEntry : RecoveredEntry where
  path := [0x61]
  sizeInBytes := 4097
  extents := List.replicate 4097 ⟨0, 1⟩
  residentContent := []
  timestamps := ⟨0, 0, 0⟩
  state := .kLive
  recoverability := .kValid

/-- The heavily fragmented file is appended, dropped on the way back, and neither
wins nor is counted as suppressed. -/
theorem not_accounted_fragmented :
    ¬ ∃ result,
      arbitrateIndex Sorter.insertion
          (indexOf ([Finding.entry fragmentedEntry].filterMap indexed) ⟨⟨[], []⟩, ⟨[], []⟩, none⟩) =
        .ok result ∧
      result.winners.length + result.suppressed =
        ([Finding.entry fragmentedEntry].filterMap indexed).length := by
  have unstorable : ¬ Storable (candidateOfEntry fragmentedEntry) := by
    rintro ⟨_, few, _⟩
    have pieces : (candidateOfEntry fragmentedEntry).extents.length = 4097 :=
      List.length_replicate
    rw [pieces] at few
    exact absurd few (by decide)
  obtain ⟨contents, read, counted⟩ := readIndex_indexOf [candidateOfEntry fragmentedEntry]
    ⟨⟨[], []⟩, ⟨[], []⟩, none⟩
  have none : contents.candidates = [] := by
    rw [← List.length_eq_zero_iff, counted]
    simp [unstorable]
  rintro ⟨result, arbitrated, accounted⟩
  have only : [Finding.entry fragmentedEntry].filterMap indexed =
      [candidateOfEntry fragmentedEntry] := rfl
  rw [only, arbitrateIndex, read, if_neg (by decide)] at arbitrated
  simp only [bind, Except.bind, pure, Except.pure, Except.ok.injEq] at arbitrated
  rw [← arbitrated, Arbitration.length_arbitrate, none, only] at accounted
  simp at accounted

end IndexingVisitors
end Revenant
