import Revenant.IndexHoldings

/-!
# What goes into an index comes out of it

A candidate inside the reader's limits reads back as itself wherever its entry
stands in the blob.  An index that is closed and reopened at the record it had
reached goes on as if it had stayed open, so any number of sessions leave the
candidates of all of them, in order.
-/

namespace Revenant
namespace CandidateIndex

open ByteLayout CandidateRecord IndexingVisitors

/-- The limits of the index, on one candidate. -/
structure Within (candidate : Candidate) : Prop where
  name : candidate.name.length ≤ kMaxCandidateNameBytes
  extents : candidate.extents.length ≤ kMaxCandidateExtents
  resident : candidate.residentContent.length ≤ kMaxResidentBytes

section Entry

theorem readLe_append_left {width : Nat} (value : Nat) (rest : Bytes) :
    readLe width (toLittleEndian width value ++ rest) 0 = value % 256 ^ width := by
  rw [readLe, slice, List.drop_zero, List.take_left' (length_toLittleEndian width value),
    fromLittleEndian_toLittleEndian]

theorem readLe_drop (width at_ skipped : Nat) (raw : Bytes) :
    readLe width raw (skipped + at_) = readLe width (raw.drop skipped) at_ := by
  rw [readLe, readLe, slice, slice, List.drop_drop]

theorem readLe_extent (extent : Extent) (rest : Bytes) :
    UInt64.ofNat (readLe 8 (encodeExtent extent ++ rest) 0) = extent.deviceOffset ∧
      UInt64.ofNat (readLe 8 (encodeExtent extent ++ rest) 8) = extent.lengthBytes := by
  have width : 256 ^ 8 = 2 ^ 64 := by decide
  have offset : extent.deviceOffset.toNat % 256 ^ 8 = extent.deviceOffset.toNat :=
    Nat.mod_eq_of_lt (width ▸ extent.deviceOffset.toNat_lt)
  have length : extent.lengthBytes.toNat % 256 ^ 8 = extent.lengthBytes.toNat :=
    Nat.mod_eq_of_lt (width ▸ extent.lengthBytes.toNat_lt)
  constructor
  · rw [encodeExtent, List.append_assoc, readLe_append_left, offset, UInt64.ofNat_toNat]
  · have behind : (encodeExtent extent ++ rest).drop 8 =
        toLittleEndian 8 extent.lengthBytes.toNat ++ rest := by
      rw [encodeExtent, List.append_assoc, List.drop_left' (length_toLittleEndian 8 _)]
    rw [readLe_drop 8 0 8, behind, readLe_append_left, length, UInt64.ofNat_toNat]

theorem decodeExtents_succ (extent : Extent) (rest : Bytes) (count : Nat) :
    decodeExtents (encodeExtent extent ++ rest) (count + 1) = extent :: decodeExtents rest count := by
  obtain ⟨offset, length⟩ := readLe_extent extent rest
  have width : (encodeExtent extent).length = kExtentBytes := by
    simp [encodeExtent, kExtentBytes]
  have later (ordinal place : Nat) :
      readLe 8 (encodeExtent extent ++ rest) ((ordinal + 1) * kExtentBytes + place) =
        readLe 8 rest (ordinal * kExtentBytes + place) := by
    rw [Nat.succ_mul, Nat.add_comm _ kExtentBytes, Nat.add_assoc, readLe_drop, List.drop_left' width]
  have first (ordinal : Nat) := later ordinal 0
  simp only [Nat.add_zero] at first
  simp only [decodeExtents, List.range_succ_eq_map, List.map_cons, List.map_map, Nat.zero_mul,
    Nat.zero_add, offset, length, Function.comp_def, Nat.succ_eq_add_one, first, later]

theorem decodeExtents_encode (extents : List Extent) :
    decodeExtents (extents.flatMap encodeExtent) extents.length = extents := by
  induction extents with
  | nil => rfl
  | cons extent extents ih =>
      rw [List.flatMap_cons, List.length_cons, decodeExtents_succ, ih]

theorem storable_of_within {candidate : Candidate} (within : Within candidate) :
    Storable candidate := by
  have name := within.name
  have extents := within.extents
  have resident := within.resident
  simp only [kMaxCandidateNameBytes, kMaxCandidateExtents, kMaxResidentBytes] at name extents resident
  refine ⟨?_, ?_, ?_⟩ <;>
    simp only [kMaxCandidateNameBytes, kMaxCandidateExtents, kMaxResidentBytes] <;> omega

theorem lengths_recordFor {candidate : Candidate} (within : Within candidate) (offset : Nat) :
    (recordFor candidate offset).nameLength.toNat = candidate.name.length ∧
      (recordFor candidate offset).extentCount.toNat = candidate.extents.length ∧
        (recordFor candidate offset).residentLength.toNat = candidate.residentContent.length := by
  have name := within.name
  have extents := within.extents
  have resident := within.resident
  simp only [kMaxCandidateNameBytes, kMaxCandidateExtents, kMaxResidentBytes] at name extents resident
  refine ⟨?_, ?_, ?_⟩ <;> simp only [recordFor, UInt32.toNat_ofNat'] <;> omega

theorem length_encodeBlobEntry (candidate : Candidate) :
    (encodeBlobEntry candidate).length = candidate.name.length +
      candidate.extents.length * kExtentBytes + candidate.residentContent.length := by
  rw [encodeBlobEntry, List.length_append, List.length_append, length_encodeExtents]

/-- Every field comes back out of the entry. -/
theorem decodeCandidate_encodeBlobEntry {candidate : Candidate} (within : Within candidate)
    (offset : Nat) :
    decodeCandidate (recordFor candidate offset) (encodeBlobEntry candidate) = candidate := by
  obtain ⟨name, extents, resident⟩ := lengths_recordFor within offset
  have extentsLength := length_encodeExtents candidate.extents
  have nameBack : (encodeBlobEntry candidate).take candidate.name.length = candidate.name := by
    rw [encodeBlobEntry, List.append_assoc, List.take_left]
  have extentsBack : slice (encodeBlobEntry candidate) candidate.name.length
      (candidate.extents.length * kExtentBytes) = candidate.extents.flatMap encodeExtent := by
    rw [slice, encodeBlobEntry, List.append_assoc, List.drop_left, List.take_left' extentsLength]
  have residentBack : (encodeBlobEntry candidate).drop
      ((encodeBlobEntry candidate).length - candidate.residentContent.length) =
        candidate.residentContent := by
    rw [length_encodeBlobEntry, Nat.add_sub_cancel, encodeBlobEntry, List.drop_left']
    rw [List.length_append, extentsLength]
  rw [decodeCandidate, name, nameBack, extents, extentsBack, decodeExtents_encode, resident,
    residentBack]
  simp only [recordFor, Confidence.ofByte_toByte, CandidateSource.ofByte_toByte]

/-- Inside the limits, a record reads back as the candidate it was made for. -/
theorem stored_of_within {candidate : Candidate} (within : Within candidate) :
    stored candidate = some candidate := by
  obtain ⟨name, extents, resident⟩ := lengths_recordFor within 0
  obtain ⟨fits, read⟩ := blobRangeFits_recordFor candidate 0 (encodeBlobEntry candidate)
    (by decide) (by simp)
  have whole : entryBytes (recordFor candidate 0) = (encodeBlobEntry candidate).length := by
    rw [entryBytes, name, extents, resident, length_encodeBlobEntry]
  have sane := (lengthsAreSane_recordFor candidate 0).mpr (storable_of_within within)
  rw [stored, readCandidate, sane, fits, read, whole, List.drop_zero, List.take_length,
    decodeCandidate_encodeBlobEntry within]
  rfl

end Entry

section Sessions

/-- Appending one candidate to a live index. -/
theorem Live.writeEntry {disk : SessionDisk} {index : CandidateIndex} {candidates : List Candidate}
    (live : Live disk index candidates) (candidate : Candidate)
    (word : disk.blob.flushed.length + (encodeBlobEntry candidate).length < 2 ^ 64) :
    Live (disk.performAll (index.writeEntry candidate).1) (index.writeEntry candidate).2
        (candidates ++ [candidate]) ∧
      (disk.performAll (index.writeEntry candidate).1).blob.flushed.length =
        disk.blob.flushed.length + (encodeBlobEntry candidate).length := by
  obtain ⟨records, written, described⟩ := live.held
  have indexNow : disk.index.contents = disk.index.flushed := by
    rw [Stream.contents, live.settled.1, List.append_nil]
  have blobNow : disk.blob.contents = disk.blob.flushed := by
    rw [Stream.contents, live.settled.2, List.append_nil]
  have blobThen : (disk.performAll (index.writeEntry candidate).1).blob =
      ⟨disk.blob.flushed ++ encodeBlobEntry candidate, []⟩ := by
    simp [SessionDisk.performAll, CandidateIndex.writeEntry, SessionDisk.perform,
      SessionDisk.update, Stream.flush, blobNow]
  have indexThen : (disk.performAll (index.writeEntry candidate).1).index =
      ⟨disk.index.flushed ++ encodeRecord (recordFor candidate index.blobBytes), []⟩ := by
    simp [SessionDisk.performAll, CandidateIndex.writeEntry, SessionDisk.perform,
      SessionDisk.update, Stream.flush, indexNow]
  refine ⟨⟨⟨by rw [indexThen], by rw [blobThen]⟩, ?_, ?_, ?_⟩, ?_⟩
  · refine ⟨records ++ [recordFor candidate index.blobBytes], ?_, ?_⟩
    · rw [indexThen, written]
      simp
    · rw [blobThen, live.reached]
      have earlier := described.imp fun _ _ describes =>
        describes.grow (List.prefix_append disk.blob.flushed (encodeBlobEntry candidate))
      exact List.rel_append earlier
        (.cons (describes_appended disk.blob.flushed candidate (by omega)) .nil)
  · rw [CandidateIndex.writeEntry, List.length_append, live.counted]
    rfl
  · rw [blobThen, List.length_append, CandidateIndex.writeEntry, live.reached]
    exact Nat.mod_eq_of_lt word
  · rw [blobThen, List.length_append]

/-- The longest an entry can be. -/
def kMaxEntryBytes : Nat :=
  kMaxCandidateNameBytes + kMaxCandidateExtents * kExtentBytes + kMaxResidentBytes

theorem length_entry_le {candidate : Candidate} (within : Within candidate) :
    (encodeBlobEntry candidate).length ≤ kMaxEntryBytes := by
  have extents := Nat.mul_le_mul_right kExtentBytes within.extents
  have name := within.name
  have resident := within.resident
  rw [length_encodeBlobEntry, kMaxEntryBytes]
  omega

/-- Appending a list: the index goes on holding everything, and its blob stays
within what its candidates can take. -/
theorem Live.appendAll {disk : SessionDisk} {index : CandidateIndex} {held : List Candidate}
    (live : Live disk index held) (blob : disk.blob.flushed.length ≤ held.length * kMaxEntryBytes)
    {more : List Candidate} (within : ∀ candidate ∈ more, Within candidate)
    (few : (held ++ more).length ≤ kMaxIndexedCandidates) :
    Live (disk.performAll (index.appendAll more).1) (index.appendAll more).2 (held ++ more) ∧
      (disk.performAll (index.appendAll more).1).blob.flushed.length ≤
        (held ++ more).length * kMaxEntryBytes := by
  induction more generalizing disk index held with
  | nil =>
      rw [List.append_nil]
      exact ⟨live, blob⟩
  | cons candidate more ih =>
      have entry := length_entry_le (within candidate List.mem_cons_self)
      have room : held.length < kMaxIndexedCandidates := by
        rw [List.length_append, List.length_cons] at few
        omega
      have word : disk.blob.flushed.length + (encodeBlobEntry candidate).length < 2 ^ 64 := by
        simp only [kMaxIndexedCandidates, kMaxEntryBytes, kMaxCandidateNameBytes,
          kMaxCandidateExtents, kExtentBytes, kMaxResidentBytes] at blob entry room
        omega
      obtain ⟨next, reached⟩ := live.writeEntry candidate word
      have blobNext : (disk.performAll (index.writeEntry candidate).1).blob.flushed.length ≤
          (held ++ [candidate]).length * kMaxEntryBytes := by
        rw [reached, List.length_append, List.length_singleton, Nat.succ_mul]
        omega
      have rest := ih next blobNext (fun later member => within later (List.mem_cons_of_mem _ member))
        (by rw [List.append_assoc, List.singleton_append]; exact few)
      rw [List.append_assoc, List.singleton_append] at rest
      rw [CandidateIndex.appendAll, performAll_append]
      exact rest

/-- A session directory, and how many records its index had when it was closed. -/
structure Closed where
  disk : SessionDisk
  records : Nat

/-- A session on a fresh index. -/
def firstSession (disk : SessionDisk) (candidates : List Candidate) : Closed :=
  let created := CandidateIndex.create
  let written := created.2.appendAll candidates
  ⟨(disk.performAll created.1).performAll written.1, written.2.count⟩

/-- A session that goes on at the record the last one had reached. -/
def nextSession (closed : Closed) (candidates : List Candidate) : Result Closed := do
  let reopened ← reopen closed.disk closed.records
  let written := reopened.2.appendAll candidates
  return ⟨(closed.disk.performAll reopened.1).performAll written.1, written.2.count⟩

theorem live_create (disk : SessionDisk) :
    Live (disk.performAll CandidateIndex.create.1) CandidateIndex.create.2 [] ∧
      (disk.performAll CandidateIndex.create.1).blob.flushed = [] := by
  refine ⟨⟨⟨?_, ?_⟩, ⟨[], ?_, .nil⟩, rfl, ?_⟩, ?_⟩ <;>
    simp [SessionDisk.performAll, CandidateIndex.create, SessionDisk.perform, SessionDisk.update,
      Stream.resize, Stream.flush, Stream.append, Stream.contents]

theorem resize_of_settled {stream : Stream} (settled : stream.pending = []) :
    stream.resize stream.contents.length = stream := by
  obtain ⟨flushed, pending⟩ := stream
  subst settled
  simp [Stream.resize, Stream.contents]

/-- Reopening where the index ends changes nothing. -/
theorem Live.reopen {disk : SessionDisk} {index : CandidateIndex} {held : List Candidate}
    (live : Live disk index held) :
    ∃ effects, CandidateIndex.reopen disk index.count = .ok (effects, index) ∧
      disk.performAll effects = disk := by
  have length := live.length_index
  rw [← live.counted] at length
  have blobNow : disk.blob.contents.length = index.blobBytes := by
    rw [Stream.contents, live.settled.2, List.append_nil, live.reached]
  refine ⟨_, by rw [CandidateIndex.reopen, if_neg (by omega), blobNow], ?_⟩
  have whole : disk.index.resize (recordAreaBytes index.count) = disk.index := by
    rw [← length]
    exact resize_of_settled live.settled.1
  simp only [SessionDisk.performAll, List.foldl_cons, List.foldl_nil, SessionDisk.perform,
    SessionDisk.update, whole]

/-- What a run of sessions keeps: the index is live, holds what they appended,
and is closed at its last record. -/
def Kept (closed : Closed) (held : List Candidate) : Prop :=
  ∃ index, Live closed.disk index held ∧ closed.records = index.count ∧
    closed.disk.blob.flushed.length ≤ held.length * kMaxEntryBytes

theorem kept_firstSession (disk : SessionDisk) {candidates : List Candidate}
    (within : ∀ candidate ∈ candidates, Within candidate)
    (few : candidates.length ≤ kMaxIndexedCandidates) :
    Kept (firstSession disk candidates) candidates := by
  obtain ⟨live, empty⟩ := live_create disk
  obtain ⟨next, blob⟩ := live.appendAll (by rw [empty]; simp) within few
  exact ⟨_, next, rfl, blob⟩

theorem Kept.nextSession {closed : Closed} {held more : List Candidate} (kept : Kept closed held)
    (within : ∀ candidate ∈ more, Within candidate)
    (few : (held ++ more).length ≤ kMaxIndexedCandidates) :
    ∃ later, nextSession closed more = .ok later ∧ Kept later (held ++ more) := by
  obtain ⟨index, live, records, blob⟩ := kept
  obtain ⟨effects, reopened, unchanged⟩ := live.reopen
  obtain ⟨next, blobNext⟩ := live.appendAll blob within few
  refine ⟨⟨closed.disk.performAll (index.appendAll more).1, (index.appendAll more).2.count⟩, ?_,
    _, next, rfl, blobNext⟩
  simp only [CandidateIndex.nextSession, records, reopened, bind, Except.bind, pure, Except.pure,
    unchanged]

/-- The run lemma: every further session goes through. -/
theorem Kept.foldlM {closed : Closed} {held : List Candidate} (sessions : List (List Candidate))
    (kept : Kept closed held) (within : ∀ session ∈ sessions, ∀ candidate ∈ session, Within candidate)
    (few : (held ++ sessions.flatten).length ≤ kMaxIndexedCandidates) :
    ∃ last, sessions.foldlM CandidateIndex.nextSession closed = .ok last ∧
      Kept last (held ++ sessions.flatten) := by
  induction sessions generalizing closed held with
  | nil =>
      refine ⟨closed, rfl, ?_⟩
      rw [List.flatten_nil, List.append_nil]
      exact kept
  | cons session sessions ih =>
      rw [List.flatten_cons, ← List.append_assoc] at few ⊢
      have here : (held ++ session).length ≤ kMaxIndexedCandidates := by
        rw [List.length_append] at few
        omega
      obtain ⟨later, opened, keptLater⟩ :=
        kept.nextSession (within session List.mem_cons_self) here
      obtain ⟨last, rest, keptLast⟩ := ih keptLater
        (fun other member => within other (List.mem_cons_of_mem _ member)) few
      refine ⟨last, ?_, keptLast⟩
      rw [List.foldlM_cons, opened]
      exact rest

theorem readBack_of_within {candidates : List Candidate}
    (within : ∀ candidate ∈ candidates, Within candidate)
    (few : candidates.length ≤ kMaxIndexedCandidates) :
    readBack candidates = .ok ⟨candidates, 0⟩ := by
  have back : candidates.filterMap stored = candidates := by
    rw [List.filterMap_congr fun candidate member => stored_of_within (within candidate member)]
    exact List.filterMap_some
  have none : candidates.filter (fun candidate => (stored candidate).isNone) = [] := by
    rw [List.filter_eq_nil_iff]
    intro candidate member
    simp [stored_of_within (within candidate member)]
  rw [readBack, if_neg (Nat.not_lt.mpr few), back, none]
  rfl

/-- Candidates inside the limits, appended in any number of sessions, are read
back in order, every one as it was, and none is dropped. -/
theorem readIndex_sessions (disk : SessionDisk) (first : List Candidate)
    (later : List (List Candidate))
    (within : ∀ candidate ∈ first ++ later.flatten, Within candidate)
    (few : (first ++ later.flatten).length ≤ kMaxIndexedCandidates) :
    ∃ last, later.foldlM nextSession (firstSession disk first) = .ok last ∧
      readIndex last.disk = .ok ⟨first ++ later.flatten, 0⟩ := by
  have fewFirst : first.length ≤ kMaxIndexedCandidates := by
    rw [List.length_append] at few
    omega
  have kept := kept_firstSession disk
    (fun candidate member => within candidate (List.mem_append_left _ member)) fewFirst
  obtain ⟨last, run, index, live, -⟩ := kept.foldlM later
    (fun session listed candidate member => within candidate
      (List.mem_append_right _ (List.mem_flatten_of_mem listed member))) few
  refine ⟨last, run, ?_⟩
  rw [live.readIndex_eq, readBack_of_within within few]

/-- A named file and a carved one, in two sessions. -/
theorem readIndex_twoSessions :
    ∃ last, [[candidateOfEntry ⟨[0x61], 1, [⟨4096, 1⟩], [], ⟨1, 2, 3⟩, .kLive, .kValid⟩]].foldlM
        nextSession (firstSession ⟨⟨[], []⟩, ⟨[], []⟩, none⟩
          [⟨[0x6A, 0x70, 0x67], [⟨0, 7⟩], [], ⟨0, 0, 0⟩, .kUncertain, .kCarve⟩]) = .ok last ∧
      readIndex last.disk = .ok
        ⟨[⟨[0x6A, 0x70, 0x67], [⟨0, 7⟩], [], ⟨0, 0, 0⟩, .kUncertain, .kCarve⟩,
          candidateOfEntry ⟨[0x61], 1, [⟨4096, 1⟩], [], ⟨1, 2, 3⟩, .kLive, .kValid⟩], 0⟩ := by
  refine readIndex_sessions _ _ _ (fun candidate member => ?_) (by decide)
  simp only [List.flatten_cons, List.flatten_nil, List.append_nil, List.cons_append,
    List.nil_append, List.mem_cons, List.not_mem_nil, or_false] at member
  rcases member with rfl | rfl
  · constructor <;> decide
  · constructor <;> decide

end Sessions

end CandidateIndex
end Revenant
