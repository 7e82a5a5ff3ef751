import Revenant.ExfatVolume
import Revenant.Ext4Walk
import Revenant.HybridRecovery
import Revenant.NtfsVolume
import Revenant.PartitionTable

/-!
# Mounting a volume and walking a whole source

The four filesystems in the order they are asked, what a mounted volume
enumerates, and the filesystem pass over one volume or over every partition of a
disk.
-/

namespace Revenant

open Consulting

/-- A volume one of the filesystems has recognized. -/
inductive MountedVolume where
  | ntfs (table : Ntfs.MftTable)
  | exfat (chain : ClusterChain) (rootCluster : UInt32)
  | fat32 (chain : ClusterChain) (rootCluster : UInt32) (nonConforming : Bool)
  | ext4 (blocks : Ext4.Ext4Blocks)

/-- An entry as a volume reports it, with what it was made from. -/
inductive VolumeReport where
  | ntfs (report : Ntfs.RecordReport)
  | exfat (report : FileReport Exfat.Cursor Exfat.FinishedSet)
  | fat32 (report : FileReport Fat.Cursor Fat.NamedSlot)
  | ext4 (origin : Ext4.Origin) (entry : RecoveredEntry)

def VolumeReport.entry : VolumeReport → RecoveredEntry
  | .ntfs report => report.entry
  | .exfat report => report.entry
  | .fat32 report => report.entry
  | .ext4 _ entry => entry

/-- What enumerating a volume did. -/
structure VolumeWalk where
  reports : List VolumeReport
  outcome : Result EnumerationStats

section Mounting

variable (source : Source)

/-- A volume that does not bear a filesystem's name is another's. -/
def recognized {Geometry : Type} (named : Result Unit) (parsed : Result Geometry) :
    Result Geometry :=
  match named with
  | .error _ => .error { code := .kNotFound }
  | .ok () => parsed

def mountNtfs : Attempt MountedVolume := do
  let sector ← source.readMountRegion 0 kBootSectorBytes
  let geometry ← settled (recognized (Ntfs.oemIdIsValid sector) (Ntfs.parseBootSector sector))
  let table ← Ntfs.MftTable.open_ source geometry
  return .ntfs table

def mountExfat : Attempt MountedVolume := do
  let sector ← source.readMountRegion 0 kBootSectorBytes
  let geometry ← settled (recognized (Exfat.namesExfat sector) (Exfat.parseExfatBootSector sector))
  return .exfat ⟨source, Exfat.chainGeometryOf geometry⟩ (UInt32.ofNat geometry.rootCluster)

def mountFat32 : Attempt MountedVolume := do
  let sector ← source.readMountRegion 0 kBootSectorBytes
  let geometry ← settled
    (recognized (Fat.filSysTypeIsFat32 sector) (Fat.parseFat32BootSector sector))
  return .fat32 ⟨source, Fat.chainGeometryOf geometry⟩ (UInt32.ofNat geometry.rootCluster)
    geometry.belowClusterMinimum

def mountExt4 : Attempt MountedVolume := do
  let superblock ← source.readMountRegion Ext4.kSuperblockOffset Ext4.kSuperblockBytes
  let geometry ← settled
    (recognized (Ext4.namesExt4 superblock) (Ext4.parseExt4Superblock superblock))
  return .ext4 ⟨source, geometry⟩

/-- In probe order: an exFAT volume also carries a FAT-shaped BPB, and the last
signature is the weakest. -/
def kMounters : List (Attempt MountedVolume) :=
  [mountNtfs source, mountExfat source, mountFat32 source, mountExt4 source]

/-- Only `kNotFound` means that the next one is to be asked. -/
def firstMounted : List (Attempt MountedVolume) → Attempt MountedVolume
  | [] => throw { code := .kNotFound }
  | mounter :: mounters => fun log =>
      match mounter log with
      | (.ok mounted, later) => (.ok mounted, later)
      | (.error error, later) =>
          if error.code = .kNotFound then firstMounted mounters later else (.error error, later)

def mountVolume : Attempt MountedVolume := firstMounted (kMounters source)

end Mounting

namespace MountedVolume

def statsOf (reports scanned : Nat) (nonConforming : Bool) (outcome : Result Unit) :
    Result EnumerationStats :=
  outcome.map fun _ => ⟨scanned, reports, nonConforming⟩

def enumerateNtfs (table : Ntfs.MftTable) : Reading VolumeWalk := do
  let (walk, outcome) ← Ntfs.enumerateEntries table
  return ⟨walk.reports.map .ntfs, statsOf walk.reports.length walk.scanned false outcome⟩

def enumerateExfat (chain : ClusterChain) (rootCluster : UInt32) : Reading VolumeWalk := do
  let walked ← Exfat.walkVolume chain rootCluster
  return ⟨walked.walk.reports.map .exfat,
    statsOf walked.walk.reports.length walked.walk.scanned false walked.outcome⟩

def enumerateFat32 (chain : ClusterChain) (rootCluster : UInt32) (nonConforming : Bool) :
    Reading VolumeWalk := do
  let (walk, outcome) ← Fat.walkVolume chain rootCluster
  return ⟨walk.reports.map .fat32, statsOf walk.reports.length walk.scanned nonConforming outcome⟩

/-- The journal is indexed once, before the walk that asks it. -/
def enumerateExt4 (blocks : Ext4.Ext4Blocks) : Reading VolumeWalk := do
  let journal ← Ext4.readJournal blocks
  let walked ← Ext4.walkVolume blocks journal
  let named := walked.walk.reports.map fun report => .ext4 report.origin report.entry
  let orphans := walked.orphans.map fun report => .ext4 report.origin report.entry
  return ⟨named ++ orphans, statsOf (named.length + orphans.length)
    (walked.walk.scanned + walked.orphansScanned) false walked.outcome⟩

def enumerate : MountedVolume → Reading VolumeWalk
  | .ntfs table => enumerateNtfs table
  | .exfat chain rootCluster => enumerateExfat chain rootCluster
  | .fat32 chain rootCluster nonConforming => enumerateFat32 chain rootCluster nonConforming
  | .ext4 blocks => enumerateExt4 blocks

end MountedVolume

/-- A volume that will not mount reports nothing. -/
def enumerateVolume (source : Source) : Reading VolumeWalk := do
  match ← (mountVolume source).run with
  | .error error => return ⟨[], .error error⟩
  | .ok volume => volume.enumerate

section Partitions

/-- A source met through a window. -/
def Source.onto (source : Source) (start length : Nat) : Source :=
  fun made => PartitionView.onto (source made) start length

/-- An entry of a partition, restated in the coordinates of the whole disk. -/
def placed (partition : Partition) (entry : RecoveredEntry) : RecoveredEntry :=
  { entry with
    path := ascii "partition-" ++ decimal partition.number ++ ascii "/" ++ entry.path,
    extents := entry.extents.map fun extent =>
      { extent with deviceOffset :=
          UInt64.ofNat (saturatingAdd64 extent.deviceOffset.toNat partition.startBytes) } }

/-- A report of one partition of a disk. -/
structure PartitionReport where
  partition : Partition
  report : VolumeReport

def PartitionReport.entry (report : PartitionReport) : RecoveredEntry :=
  placed report.partition report.report.entry

def EnumerationStats.plus (total one : EnumerationStats) : EnumerationStats where
  recordsScanned := total.recordsScanned + one.recordsScanned
  entriesReported := total.entriesReported + one.entriesReported
  nonConformingVolume := total.nonConformingVolume || one.nonConformingVolume

/-- What enumerating a disk did. -/
structure DiskWalk where
  reports : List PartitionReport := []
  total : EnumerationStats := ⟨0, 0, false⟩

variable (source : Source)

/-- A volume that would not mount, or whose walk failed, adds nothing to the
total. -/
def walkPartition (partition : Partition) (disk : DiskWalk) : Reading DiskWalk := do
  let walked ← enumerateVolume (source.onto partition.startBytes partition.lengthBytes)
  let reports := disk.reports ++ walked.reports.map (⟨partition, ·⟩)
  match walked.outcome with
  | .error _ => return ⟨reports, disk.total⟩
  | .ok stats => return ⟨reports, disk.total.plus stats⟩

def enumerateFrom : List Partition → DiskWalk → Reading DiskWalk
  | [], disk => return disk
  | partition :: partitions, disk => do
      let disk ← walkPartition source partition disk
      enumerateFrom partitions disk

def enumerateDisk (partitions : List Partition) : Reading DiskWalk :=
  enumerateFrom source partitions {}

/-- The filesystem pass over what the scope resolved to: every partition of a
disk, or one volume. -/
def walkLayout (layout : List Partition) : Reading Walk :=
  if layout.isEmpty then do
    let walked ← enumerateVolume source
    return ⟨walked.reports.map VolumeReport.entry, walked.outcome⟩
  else do
    let disk ← enumerateDisk source layout
    return ⟨disk.reports.map PartitionReport.entry, .ok disk.total⟩

end Partitions

end Revenant
