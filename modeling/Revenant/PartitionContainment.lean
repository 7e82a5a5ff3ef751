import Revenant.EntryContent
import Revenant.ExfatCompleteness

/-!
# Where the entries of a partition lie

A volume is mounted on a window of the disk and locates what it reports within the
end it declares itself.  Its entries are then moved to the disk's coordinates, so
they stay in the partition when the volume declares no more than the window holds,
and nothing else keeps them there.
-/

namespace Revenant

open Consulting ExtentSpan

section Volumes

/-- Extents that each have a property and are the whole file if there are any, or
content of the file's size instead of them. -/
structure Whole (Good : Extent → Prop) (entry : RecoveredEntry) : Prop where
  spans : Spans Good entry.sizeInBytes.toNat entry.extents
  resident : entry.residentContent ≠ [] →
    entry.extents = [] ∧ entry.residentContent.length = entry.sizeInBytes.toNat

variable {Good : Extent → Prop}

theorem Delivers.whole {last : Nat} {entry : RecoveredEntry} (delivers : Delivers last entry)
    (located : ∀ extent, Lies 0 last extent → Good extent) : Whole Good entry :=
  ⟨delivers.spans.mono located, delivers.resident⟩

namespace MountedVolume

variable {volume : MountedVolume}

/-- What makes a property of extents one that every extent a volume locates has. -/
def Locates (Good : Extent → Prop) : MountedVolume → Prop
  | .ext4 blocks => Ext4.Mappable blocks Good
  | volume => ∀ extent, Lies 0 volume.declaredEnd extent → Good extent

theorem enumerate_whole (sound : volume.Sound) (locates : volume.Locates Good) :
    Always volume.enumerate fun walked => ∀ report ∈ walked.reports, Whole Good report.entry := by
  cases volume with
  | ntfs table =>
      refine Always.bind (Ntfs.enumerateEntries_delivers table sound) fun walked delivers => ?_
      refine Always.pure fun report member => ?_
      obtain ⟨found, mem, rfl⟩ := List.mem_map.mp member
      exact (delivers found mem).whole locates
  | exfat chain rootCluster =>
      refine Always.bind (Exfat.walkVolume_delivers sound rootCluster) fun walked delivers => ?_
      refine Always.pure fun report member => ?_
      obtain ⟨found, mem, rfl⟩ := List.mem_map.mp member
      exact (delivers found mem).2.whole locates
  | fat32 chain rootCluster nonConforming =>
      refine Always.bind (Fat.walkVolume_delivers sound rootCluster) fun walked delivers => ?_
      refine Always.pure fun report member => ?_
      obtain ⟨found, mem, rfl⟩ := List.mem_map.mp member
      exact (delivers found mem).whole locates
  | ext4 blocks =>
      have mappable : Ext4.Mappable blocks Good := locates
      refine Always.bind Always.trivial fun journal _ => ?_
      refine Always.bind (Ext4.walkVolume_made blocks journal) fun walked made => ?_
      have whole : ∀ {origin entry}, Ext4.Made blocks journal origin entry → Whole Good entry := by
        intro origin entry made
        obtain ⟨spans, none_⟩ := made.spans mappable sound.2
        exact ⟨spans, fun some_ => absurd none_ some_⟩
      refine Always.pure fun report member => ?_
      rcases List.mem_append.mp member with named | orphan
      · obtain ⟨found, mem, rfl⟩ := List.mem_map.mp named
        exact whole (made.1 found mem)
      · obtain ⟨found, mem, rfl⟩ := List.mem_map.mp orphan
        exact whole (made.2 found mem)

/-- Every extent a volume locates holds something. -/
theorem locates_holds (sound : volume.Sound) :
    volume.Locates fun extent => 0 < extent.lengthBytes.toNat := by
  cases volume with
  | ntfs table => exact fun _ lies => lies.holds
  | exfat chain rootCluster => exact fun _ lies => lies.holds
  | fat32 chain rootCluster nonConforming => exact fun _ lies => lies.holds
  | ext4 blocks => exact Ext4.mappable_holds sound.1 sound.2

/-- And when the end it declares is a 64-bit number, lies before that end. -/
theorem locates_lies (sound : volume.Sound) (addressable : volume.declaredEnd < 2 ^ 64) :
    volume.Locates (Lies 0 volume.declaredEnd) := by
  cases volume with
  | ntfs table => exact fun _ lies => lies
  | exfat chain rootCluster => exact fun _ lies => lies
  | fat32 chain rootCluster nonConforming => exact fun _ lies => lies
  | ext4 blocks => exact Ext4.mappable_lies sound.1 sound.2 addressable (Nat.zero_le _)

end MountedVolume

/-- What a volume mounted from a source reports has what its volume locates. -/
theorem enumerateVolume_whole (source : Source)
    (locates : Yields (mountVolume source) fun volume =>
      ∃ Strict, volume.Locates Strict ∧ ∀ extent, Strict extent → Good extent) :
    Always (enumerateVolume source) fun walked => ∀ report ∈ walked.reports,
      Whole Good report.entry := by
  intro log
  have mounted := mountVolume_sound source log
  have places := locates log
  unfold enumerateVolume
  simp only [bind, StateT.bind]
  rcases told : (mountVolume source).run log with ⟨outcome, later⟩
  have answer : mountVolume source log = (outcome, later) := told
  rw [answer] at mounted places
  cases outcome with
  | error error => exact fun _ member => nomatch member
  | ok volume =>
      obtain ⟨Strict, located, weaker⟩ := places volume rfl
      intro report member
      have whole := MountedVolume.enumerate_whole (mounted volume rfl) located later report member
      exact ⟨whole.spans.mono weaker, whole.resident⟩

end Volumes

section Partitions

/-- The extents of an entry lie in the byte range of a partition. -/
def Contained (partition : Partition) (entry : RecoveredEntry) : Prop :=
  ∀ extent ∈ entry.extents, partition.startBytes ≤ extent.deviceOffset.toNat ∧
    extent.deviceOffset.toNat + extent.lengthBytes.toNat ≤
      partition.startBytes + partition.lengthBytes

/-- In the coordinates of the window, the extents of an entry end where the window
does or before. -/
def WithinWindow (partition : Partition) (entry : RecoveredEntry) : Prop :=
  ∀ extent ∈ entry.extents,
    extent.deviceOffset.toNat + extent.lengthBytes.toNat ≤ partition.lengthBytes

/-- A partition whose range 64-bit numbers can name. -/
def Partition.Addressable (partition : Partition) : Prop :=
  partition.startBytes + partition.lengthBytes < 2 ^ 64

variable (source : Source)

/-- A volume mounted in the partition declares no more than the partition holds. -/
def FitsPartition (partition : Partition) : Prop :=
  Yields (mountVolume (source.onto partition.startBytes partition.lengthBytes)) fun volume =>
    volume.declaredEnd ≤ partition.lengthBytes

variable {partition : Partition} {entry : RecoveredEntry}

theorem placed_offset {extent : Extent} {start : Nat}
    (reaches : extent.deviceOffset.toNat + start ≤ kMax) :
    (UInt64.ofNat (saturatingAdd64 extent.deviceOffset.toNat start)).toNat =
      start + extent.deviceOffset.toNat := by
  rw [saturatingAdd64_eq_min start (toNat_le_kMax extent.deviceOffset), Nat.min_eq_left reaches,
    Nat.add_comm start]
  unfold kMax at reaches
  exact UInt64.toNat_ofNat_of_lt' (by rw [UInt64.size]; omega)

/-- Moving an entry to the disk keeps it in its partition exactly when it was
within the window. -/
theorem placed_contained_iff (addressable : partition.Addressable)
    (holds : ∀ extent ∈ entry.extents, 0 < extent.lengthBytes.toNat) :
    Contained partition (placed partition entry) ↔ WithinWindow partition entry := by
  unfold Partition.Addressable at addressable
  constructor
  · intro contained extent member
    have positive := holds extent member
    obtain ⟨-, ends⟩ := contained _ (List.mem_map_of_mem member)
    dsimp only at ends
    by_cases reaches : extent.deviceOffset.toNat + partition.startBytes ≤ kMax
    · rw [placed_offset reaches] at ends
      omega
    · -- pinned at the last byte number there is, nothing fits behind it
      rw [saturatingAdd64_eq_min _ (toNat_le_kMax _), Nat.min_eq_right (by omega)] at ends
      have pinned : (UInt64.ofNat kMax).toNat = kMax := by decide
      rw [pinned] at ends
      unfold kMax at ends
      omega
  · intro within extent member
    obtain ⟨original, mem, rfl⟩ := List.mem_map.mp member
    have ends := within original mem
    dsimp only
    rw [placed_offset (by unfold kMax; omega)]
    omega

theorem enumerateFrom_reports {Good : PartitionReport → Prop} (partitions : List Partition)
    (each : ∀ partition ∈ partitions, Always (enumerateVolume
      (source.onto partition.startBytes partition.lengthBytes)) fun walked =>
        ∀ report ∈ walked.reports, Good ⟨partition, report⟩)
    (disk : DiskWalk) (before : ∀ report ∈ disk.reports, Good report) :
    Always (enumerateFrom source partitions disk) fun walked =>
      ∀ report ∈ walked.reports, Good report := by
  induction partitions generalizing disk with
  | nil => exact Always.pure before
  | cons partition partitions ih =>
      have here : Always (walkPartition source partition disk) fun walked =>
          ∀ report ∈ walked.reports, Good report := by
        refine Always.bind (each partition List.mem_cons_self) fun walked good => ?_
        have all : ∀ report ∈ disk.reports ++ walked.reports.map (⟨partition, ·⟩), Good report := by
          intro report member
          rcases List.mem_append.mp member with old | new
          · exact before report old
          · obtain ⟨found, mem, rfl⟩ := List.mem_map.mp new
            exact good found mem
        dsimp only
        split
        · exact Always.pure all
        · exact Always.pure all
      refine Always.bind here fun after good => ?_
      exact ih (fun later member => each later (List.mem_cons_of_mem partition member)) after good

theorem enumerateDisk_reports {Good : PartitionReport → Prop} (partitions : List Partition)
    (each : ∀ partition ∈ partitions, Always (enumerateVolume
      (source.onto partition.startBytes partition.lengthBytes)) fun walked =>
        ∀ report ∈ walked.reports, Good ⟨partition, report⟩) :
    Always (enumerateDisk source partitions) fun walked => ∀ report ∈ walked.reports, Good report :=
  enumerateFrom_reports source partitions each {} fun _ member => nomatch member

/-- Whatever a source bears, the extents reported of it hold something. -/
theorem enumerateVolume_holds :
    Always (enumerateVolume source) fun walked => ∀ report ∈ walked.reports,
      Whole (fun extent => 0 < extent.lengthBytes.toNat) report.entry := by
  apply enumerateVolume_whole
  refine (mountVolume_sound source).mono fun volume sound => ?_
  exact ⟨_, MountedVolume.locates_holds sound, fun _ holds => holds⟩

theorem enumerateVolume_within (addressable : partition.Addressable)
    (fits : FitsPartition source partition) :
    Always (enumerateVolume (source.onto partition.startBytes partition.lengthBytes)) fun walked =>
      ∀ report ∈ walked.reports, WithinWindow partition report.entry := by
  unfold Partition.Addressable at addressable
  have lies : Always (enumerateVolume (source.onto partition.startBytes partition.lengthBytes))
      fun walked => ∀ report ∈ walked.reports,
        Whole (Lies 0 partition.lengthBytes) report.entry := by
    apply enumerateVolume_whole
    intro log volume mounted
    have sound := mountVolume_sound _ log volume mounted
    have declared := fits log volume mounted
    refine ⟨_, MountedVolume.locates_lies sound (by omega), fun extent lies => ?_⟩
    exact ⟨lies.holds, lies.after, lies.before.trans declared⟩
  exact lies.mono fun walked whole report member extent mem =>
    ((whole report member).spans.1 extent mem).before

/-- A disk that bears, behind its first sector, the volume whose file `F` lies in its
last cluster. -/
def linkedDisk : Image := ⟨List.replicate 512 0 ++ Exfat.linkedVolume, by decide +kernel⟩

end Partitions

end Revenant
