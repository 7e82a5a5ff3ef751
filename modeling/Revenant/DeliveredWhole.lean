import Revenant.IndexingVisitors
import Revenant.PartitionContainment
import Revenant.WrittenTurns

/-!
# Whether an entry is delivered whole

The size of an entry is lost when it becomes a candidate: what is written is what its
extents or its resident content hold.  Every filesystem locates all of a file or
nothing of it, so the bytes written are the bytes declared unless nothing was located
of a file that has some.
-/

namespace Revenant

open Consulting ExtentSpan IndexingVisitors RecoverySink

/-- Content of the entry was located, in extents or in the record itself. -/
def RecoveredEntry.Located (entry : RecoveredEntry) : Prop :=
  entry.extents ≠ [] ∨ entry.residentContent ≠ []

instance (entry : RecoveredEntry) : Decidable entry.Located :=
  inferInstanceAs (Decidable (_ ∨ _))

section Entries

variable {Good : Extent → Prop} {entry : RecoveredEntry}

theorem contentBytes_of_extents (extents : entry.extents ≠ []) :
    (candidateOfEntry entry).contentBytes = totalBytes entry.extents :=
  if_neg extents

theorem contentBytes_of_none (none_ : entry.extents = []) :
    (candidateOfEntry entry).contentBytes = entry.residentContent.length :=
  if_pos none_

/-- What is located of a whole file is all of it. -/
theorem Whole.contentBytes_of_located (whole : Whole Good entry) (located : entry.Located) :
    (candidateOfEntry entry).contentBytes = entry.sizeInBytes.toNat := by
  by_cases extents : entry.extents = []
  · rw [contentBytes_of_none extents]
    exact (whole.resident (located.resolve_left (not_not_intro extents))).2
  · rw [contentBytes_of_extents extents]
    exact whole.spans.2 extents

theorem contentBytes_of_not_located (nothing : ¬ entry.Located) :
    (candidateOfEntry entry).contentBytes = 0 := by
  simp only [RecoveredEntry.Located, not_or, not_not] at nothing
  rw [contentBytes_of_none nothing.1, nothing.2, List.length_nil]

theorem Whole.contentBytes_lt (whole : Whole Good entry) :
    (candidateOfEntry entry).contentBytes < 2 ^ 64 := by
  by_cases located : entry.Located
  · rw [whole.contentBytes_of_located located]
    exact entry.sizeInBytes.toNat_lt
  · rw [contentBytes_of_not_located located]
    exact Nat.two_pow_pos 64

theorem Whole.contentBytes_eq_size_iff (whole : Whole Good entry) :
    (candidateOfEntry entry).contentBytes = entry.sizeInBytes.toNat ↔
      entry.Located ∨ entry.sizeInBytes = 0 := by
  by_cases located : entry.Located
  · simp only [whole.contentBytes_of_located located, located, true_or]
  · rw [contentBytes_of_not_located located]
    simp only [located, false_or, ← UInt64.toNat_inj, UInt64.toNat_zero, eq_comm]

/-- Moving an entry to the disk's coordinates changes no length. -/
theorem Whole.placed (whole : Whole (fun extent => 0 < extent.lengthBytes.toNat) entry)
    (partition : Partition) :
    Whole (fun extent => 0 < extent.lengthBytes.toNat) (placed partition entry) := by
  have lengths : totalBytes (Revenant.placed partition entry).extents = totalBytes entry.extents := by
    simp [totalBytes, Revenant.placed, Function.comp_def]
  refine ⟨⟨fun extent member => ?_, fun some_ => ?_⟩, fun some_ => ?_⟩
  · obtain ⟨original, mem, rfl⟩ := List.mem_map.mp member
    exact whole.spans.1 original mem
  · rw [lengths]
    exact whole.spans.2 fun none_ => some_ (by simp [Revenant.placed, none_])
  · obtain ⟨none_, length⟩ := whole.resident some_
    exact ⟨by simp [Revenant.placed, none_], length⟩

end Entries

/-- Every entry a filesystem pass reports is whole as far as it is located. -/
theorem walkLayout_whole (source : Source) (layout : List Partition) :
    Always (walkLayout source layout) fun walk => ∀ entry ∈ walk.reported,
      Whole (fun extent => 0 < extent.lengthBytes.toNat) entry := by
  unfold walkLayout
  split
  · refine Always.bind (enumerateVolume_holds source) fun walked whole => ?_
    refine Always.pure fun entry member => ?_
    obtain ⟨report, mem, rfl⟩ := List.mem_map.mp member
    exact whole report mem
  · have placed : Always (enumerateDisk source layout) fun disk => ∀ report ∈ disk.reports,
        Whole (fun extent => 0 < extent.lengthBytes.toNat) report.entry := by
      refine enumerateDisk_reports source layout fun partition _ => ?_
      refine (enumerateVolume_holds _).mono fun walked whole report member => ?_
      exact (whole report member).placed partition
    refine Always.bind placed fun disk whole => ?_
    refine Always.pure fun entry member => ?_
    obtain ⟨report, mem, rfl⟩ := List.mem_map.mp member
    exact whole report mem

section Delivery

variable {State : Type} (contained : OutputPath → Bool) (reader : Reader State)
  (media : Nat → Medium)

/-- Whenever the winner an entry became is recorded as written, the record counts as
many bytes as the entry has, and the file holds as many at the end of its turn. -/
def DeliveredWhole (winners : List Candidate) (destination : Destination) (device : State)
    (entry : RecoveredEntry) : Prop :=
  ∀ (turn : Nat) (item : Ordered) (artifact : ArtifactRecord),
    (orderedForWriting winners)[turn]? = some item →
    (extract contained reader media winners destination device).artifacts[turn]? = some artifact →
      item.winner = candidateOfEntry entry → artifact.outcome = .kWritten →
        artifact.bytes = entry.sizeInBytes.toNat ∧
          ∃ target content, (afterTurns contained reader media (orderedForWriting winners)
              (initial destination device) (turn + 1)).destination.files target = some content ∧
            content.length = entry.sizeInBytes.toNat

/-- The winner an entry became is recorded as written somewhere. -/
def WrittenFor (winners : List Candidate) (destination : Destination) (device : State)
    (entry : RecoveredEntry) : Prop :=
  ∃ (turn : Nat) (item : Ordered) (artifact : ArtifactRecord),
    (orderedForWriting winners)[turn]? = some item ∧
    (extract contained reader media winners destination device).artifacts[turn]? = some artifact ∧
      item.winner = candidateOfEntry entry ∧ artifact.outcome = .kWritten

/-- Of the entries of a pass that are written, exactly those are delivered whole of
which something was located or that are empty. -/
theorem deliveredWhole_iff (source : Source) (layout : List Partition) (winners : List Candidate)
    (destination : Destination) (device : State) :
    Always (walkLayout source layout) fun walk => ∀ entry ∈ walk.reported,
      WrittenFor contained reader media winners destination device entry →
        (DeliveredWhole contained reader media winners destination device entry ↔
          entry.Located ∨ entry.sizeInBytes = 0) := by
  refine (walkLayout_whole source layout).mono fun walk whole entry member written => ?_
  have whole := whole entry member
  rw [← whole.contentBytes_eq_size_iff]
  constructor
  · intro delivered
    obtain ⟨turn, item, artifact, here, found, became, outcome⟩ := written
    obtain ⟨target, content, -, -, counted⟩ := extract_written here found outcome
    rw [became] at counted
    exact (counted whole.contentBytes_lt).symm.trans
      (delivered turn item artifact here found became outcome).1
  · intro same turn item artifact here found became outcome
    obtain ⟨target, content, held, length, counted⟩ := extract_written here found outcome
    rw [became] at length counted
    exact ⟨(counted whole.contentBytes_lt).trans same, target, content, held, length.trans same⟩

end Delivery

/-- An exFAT volume whose only file, `F`, says it starts beyond the last cluster. -/
def strandedVolume : Bytes :=
  Exfat.smallBootSector ++
    ByteLayout.layOut 512 [ByteLayout.leField 4 0 0xFFFFFFF8, ByteLayout.leField 4 4 0xFFFFFFFF,
      ByteLayout.leField 4 8 0xFFFFFFFF] ++
    ByteLayout.layOut 512 [⟨0, Exfat.writtenSet 0x20 ⟨9, 3, 3, 1, true⟩ 'F'⟩] ++
    List.replicate 1024 0

def strandedImage : Image := ⟨strandedVolume, by decide +kernel⟩

/-- `F` has three bytes and is written as a file of none. -/
theorem not_delivered_stranded :
    ¬ Always (walkLayout strandedImage.device.unchanging []) fun walk =>
      ∀ entry ∈ walk.reported,
        DeliveredWhole (fun _ => true) zeros (fun _ => accepting)
          (walk.reported.map candidateOfEntry) Destination.empty () entry := by
  intro delivered
  have ran := delivered []
  beta_reduce at ran
  have reports : ((walkLayout strandedImage.device.unchanging [] []).1.reported.map fun entry =>
        (entry.sizeInBytes.toNat)) = [3] ∧
      ((orderedForWriting ((walkLayout strandedImage.device.unchanging [] []).1.reported.map
        candidateOfEntry)).map (·.winner)) =
          (walkLayout strandedImage.device.unchanging [] []).1.reported.map candidateOfEntry ∧
      (extract (fun _ => true) zeros (fun _ => accepting)
        ((walkLayout strandedImage.device.unchanging [] []).1.reported.map candidateOfEntry)
        Destination.empty ()).artifacts.map (fun artifact => (artifact.outcome, artifact.bytes)) =
          [(.kWritten, 0)] := by
    decide +kernel
  generalize (walkLayout strandedImage.device.unchanging [] []).1.reported = entries at ran reports
  obtain ⟨sizes, ordered, records⟩ := reports
  obtain ⟨entry, rfl, size⟩ := List.map_eq_singleton_iff.mp sizes
  obtain ⟨item, only, became⟩ := List.map_eq_singleton_iff.mp ordered
  obtain ⟨artifact, recorded, said⟩ := List.map_eq_singleton_iff.mp records
  simp only [Prod.mk.injEq] at said
  obtain ⟨outcome, bytes⟩ := said
  have whole := (ran entry List.mem_cons_self 0 item artifact (by rw [only]; rfl)
    (by rw [recorded]; rfl) became outcome).1
  rw [bytes, size] at whole
  cases whole

end Revenant
