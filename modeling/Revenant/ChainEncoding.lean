import Revenant.AddressArithmetic
import Revenant.ChainFollowing

/-!
# Chains as their formats write them

FAT32 numbers clusters with 28 bits of an entry and exFAT with all 32, and each has end
marks of its own.  One follower reads both, by the low 28 bits; it gives back the chain a
format wrote as long as no end mark is, read so, a cluster of the volume.
-/

namespace Revenant

open Consulting

/-- How a format writes its table: which entries lead on to a cluster, and which end the
chain. -/
structure TableFormat where
  Links : (entry : Nat) → (next : UInt32) → Prop
  Ends : (entry : Nat) → Prop

/-- A cluster in the low 28 bits, below the mark of a bad one; the high four are
reserved and may hold anything. -/
def Fat.tableFormat : TableFormat where
  Links entry next := entry % 2 ^ 28 = next.toNat ∧ next.toNat < 0x0FFFFFF7
  Ends entry := 0x0FFFFFF8 ≤ entry % 2 ^ 28

/-- A cluster in all 32 bits. -/
def Exfat.tableFormat : TableFormat where
  Links entry next := entry = next.toNat
  Ends entry := entry = 0xFFFFFFFF

namespace TableFormat

/-- Every cluster's entry leads to the next, and the last one's ends the chain. -/
def Writes (format : TableFormat) (entry : UInt32 → Nat) : List UInt32 → Prop
  | [] => False
  | [last] => format.Ends (entry last)
  | cluster :: next :: rest => format.Links (entry cluster) next ∧ format.Writes entry (next :: rest)

variable {format : TableFormat} {entry : UInt32 → Nat} {first : UInt32} {rest : List UInt32}

theorem Writes.ends (writes : format.Writes entry (first :: rest)) :
    format.Ends (entry (rest.getLastD first)) := by
  induction rest generalizing first with
  | nil => exact writes
  | cons next rest ih =>
      rw [List.getLastD_cons]
      exact ih writes.2

/-- A follower that reads every link and the end mark as the format means them finds the
chain linked. -/
theorem Writes.linked {geometry : ClusterGeometry} {next : UInt32 → UInt32} {Marker : UInt32 → Prop}
    (writes : format.Writes entry (first :: rest))
    (data : ∀ cluster ∈ first :: rest, Exfat.IsData geometry cluster)
    (reads : ∀ cluster, ∀ following ∈ rest, format.Links (entry cluster) following →
      next cluster = following)
    (outside : ¬ Exfat.IsData geometry (next (rest.getLastD first)))
    (marker : Marker (next (rest.getLastD first))) :
    Exfat.Linked geometry next Marker (first :: rest) := by
  induction rest generalizing first with
  | nil => exact ⟨data first List.mem_cons_self, outside, marker⟩
  | cons following rest ih =>
      rw [List.getLastD_cons] at outside marker
      have later : Exfat.Linked geometry next Marker (following :: rest) := by
        apply ih writes.2 _ _ outside marker
        · exact fun cluster member => data cluster (List.mem_cons_of_mem first member)
        · exact fun cluster other member => reads cluster other (List.mem_cons_of_mem following member)
      exact ⟨data first List.mem_cons_self, reads first following List.mem_cons_self writes.1, later⟩

end TableFormat

theorem Exfat.Linked.ends {geometry : ClusterGeometry} {next : UInt32 → UInt32}
    {Marker : UInt32 → Prop} {first : UInt32} {rest : List UInt32}
    (linked : Exfat.Linked geometry next Marker (first :: rest)) :
    ¬ Exfat.IsData geometry (next (rest.getLastD first)) ∧ Marker (next (rest.getLastD first)) := by
  induction rest generalizing first with
  | nil => exact linked.2
  | cons following rest ih =>
      rw [List.getLastD_cons]
      exact ih linked.tail

namespace ClusterChain

variable {image : Image} {geometry : ClusterGeometry}

/-- A cluster's entry, all of it. -/
def entryOf (image : Image) (geometry : ClusterGeometry) (cluster : UInt32) : Nat :=
  ByteLayout.fromLittleEndian (Exfat.entryBytes image geometry cluster)

/-- A chain written into a table that holds its entries. -/
structure Stores (format : TableFormat) (image : Image) (geometry : ClusterGeometry)
    (clusters : List UInt32) : Prop where
  distinct : clusters.Nodup
  data : ∀ cluster ∈ clusters, Exfat.IsData geometry cluster
  held : ∀ cluster ∈ clusters, (cluster.toNat + 1) * kEntryBytes ≤ geometry.tableSizeBytes
  inside : ∀ cluster ∈ clusters,
    geometry.tableOffsetBytes + (cluster.toNat + 1) * kEntryBytes ≤ image.bytes.length
  written : format.Writes (entryOf image geometry) clusters

theorem toNat_linkOf (cluster : UInt32) :
    (Exfat.linkOf image geometry cluster).toNat = entryOf image geometry cluster % 2 ^ 28 := by
  have mask : kClusterMask = 2 ^ 28 - 1 := rfl
  have small : entryOf image geometry cluster % 2 ^ 28 < 2 ^ 32 :=
    (Nat.mod_lt _ (by decide)).trans (by decide)
  rw [Exfat.linkOf, decodeEntry, UInt32.toNat_ofNat', mask, Nat.and_two_pow_sub_one_eq_mod]
  exact Nat.mod_eq_of_lt small

/-- A stored chain comes back exactly when the follower finds it linked. -/
theorem chainFrom_iff_linked {format : TableFormat} {first : UInt32} {rest : List UInt32}
    (stores : Stores format image geometry (first :: rest)) (log : ReadLog) :
    ((Exfat.chainOn image geometry).chainFrom first log).1 = .ok (first :: rest) ↔
      Exfat.Linked geometry (Exfat.linkOf image geometry) (fun last => kEndOfChain ≤ last.toNat)
        (first :: rest) := by
  constructor
  · intro found
    rcases follow_linked (Exfat.entryAt_yields_held image geometry) _ first log _ found with
      ⟨none_, -⟩ | ⟨others, -, linked⟩
    · cases none_
    · exact linked
  · intro linked
    refine Exfat.chainFrom_gives_linked linked (fun cluster member => ?_) log
    exact Exfat.entryAt_gives_held (stores.held cluster member) (stores.inside cluster member)

/-- A stored FAT32 chain comes back exactly when its end mark numbers no cluster. -/
theorem chainFrom_fat_iff {geometry : Fat.Fat32Geometry} {first : UInt32} {rest : List UInt32}
    (stores : Stores Fat.tableFormat image (Fat.chainGeometryOf geometry) (first :: rest))
    (log : ReadLog) :
    ((Exfat.chainOn image (Fat.chainGeometryOf geometry)).chainFrom first log).1 =
        .ok (first :: rest) ↔
      kFirstCluster + geometry.totalClusters ≤
        entryOf image (Fat.chainGeometryOf geometry) (rest.getLastD first) % 2 ^ 28 := by
  rw [chainFrom_iff_linked stores]
  have mark : 0x0FFFFFF8 ≤ _ := stores.written.ends
  constructor
  · intro linked
    have outside := linked.ends.1
    unfold Exfat.IsData at outside
    rw [toNat_linkOf] at outside
    simp only [Fat.chainGeometryOf, kFirstCluster] at outside mark ⊢
    omega
  · intro beyond
    apply stores.written.linked stores.data
    · rintro cluster following - ⟨same, -⟩
      apply UInt32.toNat_inj.mp
      rw [toNat_linkOf, same]
    · rintro ⟨-, below⟩
      rw [toNat_linkOf] at below
      exact absurd beyond (Nat.not_le.mpr below)
    · rw [toNat_linkOf]
      exact mark

/-- A stored exFAT chain comes back exactly when the low 28 bits of its end mark number no
cluster; every link is then its own low 28 bits. -/
theorem chainFrom_exfat_iff {geometry : Exfat.ExfatGeometry} {first : UInt32} {rest : List UInt32}
    (stores : Stores Exfat.tableFormat image (Exfat.chainGeometryOf geometry) (first :: rest))
    (log : ReadLog) :
    ((Exfat.chainOn image (Exfat.chainGeometryOf geometry)).chainFrom first log).1 =
        .ok (first :: rest) ↔
      kFirstCluster + geometry.totalClusters ≤ 0x0FFFFFFF := by
  rw [chainFrom_iff_linked stores]
  have mark : entryOf image _ _ = 0xFFFFFFFF := stores.written.ends
  have read := @toNat_linkOf image (Exfat.chainGeometryOf geometry) (rest.getLastD first)
  rw [mark] at read
  constructor
  · intro linked
    have outside := linked.ends.1
    unfold Exfat.IsData at outside
    rw [read] at outside
    simp only [Exfat.chainGeometryOf, kFirstCluster] at outside ⊢
    omega
  · intro beyond
    apply stores.written.linked stores.data
    · intro cluster following member same
      have below := (stores.data following (List.mem_cons_of_mem first member)).2
      have small : following.toNat < 2 ^ 28 := by
        simp only [Exfat.chainGeometryOf] at below
        omega
      apply UInt32.toNat_inj.mp
      have whole : entryOf image _ cluster = following.toNat := same
      rw [toNat_linkOf, whole, Nat.mod_eq_of_lt small]
    · rintro ⟨-, below⟩
      rw [read] at below
      exact absurd beyond (Nat.not_le.mpr below)
    · rw [read]
      decide

/-- A stored FAT32 chain comes back exactly when its end mark numbers no cluster of the
volume, and a stored exFAT one exactly when the low 28 bits of its end mark do not. -/
theorem chainFrom_decodes (image : Image) (sector : Bytes) (first : UInt32) (rest : List UInt32)
    (log : ReadLog) :
    (∀ geometry, Fat.parseFat32BootSector sector = .ok geometry →
      Stores Fat.tableFormat image (Fat.chainGeometryOf geometry) (first :: rest) →
      (((Exfat.chainOn image (Fat.chainGeometryOf geometry)).chainFrom first log).1 =
          .ok (first :: rest) ↔
        kFirstCluster + geometry.totalClusters ≤
          entryOf image (Fat.chainGeometryOf geometry) (rest.getLastD first) % 2 ^ 28)) ∧
    ∀ geometry, Exfat.parseExfatBootSector sector = .ok geometry →
      Stores Exfat.tableFormat image (Exfat.chainGeometryOf geometry) (first :: rest) →
      (((Exfat.chainOn image (Exfat.chainGeometryOf geometry)).chainFrom first log).1 =
          .ok (first :: rest) ↔
        kFirstCluster + geometry.totalClusters ≤ 0x0FFFFFFF) := by
  constructor
  · intro geometry _ stores
    exact chainFrom_fat_iff stores log
  · intro geometry _ stores
    exact chainFrom_exfat_iff stores log

section SmallTables

open ByteLayout

/-- A device of a boot sector and one sector of table, which links two clusters. -/
def twoLinks (sector : Bytes) (first second link mark : Nat) : Bytes :=
  sector ++ layOut 512 [leField 4 (first * kEntryBytes) link, leField 4 (second * kEntryBytes) mark]

/-- An exFAT boot sector of 512-byte clusters that declares so many of them, its one FAT
in the second sector. -/
def declaringClusters (clusterCount : Nat) : Bytes :=
  layOut 512 [⟨0x03, Exfat.kFileSystemName⟩, leField 8 Exfat.kVolumeLengthOffset (clusterCount + 2),
    leField 4 Exfat.kFatOffsetOffset 1, leField 4 Exfat.kFatLengthOffset 1,
    leField 4 Exfat.kClusterHeapOffsetOffset 2, leField 4 Exfat.kClusterCountOffset clusterCount,
    leField 4 Exfat.kRootClusterOffset 2, leField 1 Exfat.kSectorShiftOffset 9,
    leField 1 Exfat.kClusterShiftOffset 0, leField 1 Exfat.kFatCountOffset 1,
    ⟨Exfat.kSignatureOffset, [0x55, 0xAA]⟩]

/-- A FAT32 volume of more clusters than 28 bits can number, with the chain 5, 3. -/
def largeFat : Image where
  bytes := twoLinks (Fat.declaringSectors 0xFFFFFFFF) 5 3 0xA0000003 0x0FFFFFF8
  addressable := by decide +kernel

def largeFatGeometry : Fat.Fat32Geometry where
  bytesPerSector := 512
  bytesPerCluster := 512
  fatCount := 1
  fatOffsetBytes := 512
  fatSizeBytes := 512
  dataOffsetBytes := 1024
  totalClusters := 0xFFFFFFFD
  rootCluster := 2
  belowClusterMinimum := false

/-- An exFAT volume of as many clusters as 28 bits have numbers, with the chain 4, 3. -/
def largeExfat : Image where
  bytes := twoLinks (declaringClusters 0x10000000) 4 3 3 0xFFFFFFFF
  addressable := by decide +kernel

def largeExfatGeometry : Exfat.ExfatGeometry where
  bytesPerSector := 512
  bytesPerCluster := 512
  fatCount := 1
  fatOffsetBytes := 512
  fatSizeBytes := 512
  clusterHeapOffsetBytes := 1024
  totalClusters := 0x10000000
  rootCluster := 2

theorem largeFat_stores :
    Stores Fat.tableFormat largeFat (Fat.chainGeometryOf largeFatGeometry) [5, 3] where
  distinct := by decide
  data := by simp [Exfat.IsData, Fat.chainGeometryOf, largeFatGeometry, kFirstCluster]
  held := by simp [Fat.chainGeometryOf, largeFatGeometry, kEntryBytes]
  inside := by
    have length : largeFat.bytes.length = 1024 := by decide +kernel
    simp [Fat.chainGeometryOf, largeFatGeometry, kEntryBytes, length]
  written := by
    refine ⟨⟨?_, ?_⟩, ?_⟩
    · decide +kernel
    · decide
    · show 0x0FFFFFF8 ≤ _
      decide +kernel

theorem largeExfat_stores :
    Stores Exfat.tableFormat largeExfat (Exfat.chainGeometryOf largeExfatGeometry) [4, 3] where
  distinct := by decide
  data := by simp [Exfat.IsData, Exfat.chainGeometryOf, largeExfatGeometry, kFirstCluster]
  held := by simp [Exfat.chainGeometryOf, largeExfatGeometry, kEntryBytes]
  inside := by
    have length : largeExfat.bytes.length = 1024 := by decide +kernel
    simp [Exfat.chainGeometryOf, largeExfatGeometry, kEntryBytes, length]
  written := by
    have link : entryOf largeExfat (Exfat.chainGeometryOf largeExfatGeometry) 4 = 3 := by
      decide +kernel
    have mark : entryOf largeExfat (Exfat.chainGeometryOf largeExfatGeometry) 3 = 0xFFFFFFFF := by
      decide +kernel
    exact ⟨link, mark⟩

/-- The end mark of a chain is followed as a link where it numbers a cluster. -/
theorem chainFrom_passesEnd :
    (¬ ∀ (image : Image) (sector : Bytes) (geometry : Fat.Fat32Geometry) (first : UInt32)
      (rest : List UInt32) (log : ReadLog), Fat.parseFat32BootSector sector = .ok geometry →
      Stores Fat.tableFormat image (Fat.chainGeometryOf geometry) (first :: rest) →
      ((Exfat.chainOn image (Fat.chainGeometryOf geometry)).chainFrom first log).1 =
        .ok (first :: rest)) ∧
    ¬ ∀ (image : Image) (sector : Bytes) (geometry : Exfat.ExfatGeometry) (first : UInt32)
      (rest : List UInt32) (log : ReadLog), Exfat.parseExfatBootSector sector = .ok geometry →
      Stores Exfat.tableFormat image (Exfat.chainGeometryOf geometry) (first :: rest) →
      ((Exfat.chainOn image (Exfat.chainGeometryOf geometry)).chainFrom first log).1 =
        .ok (first :: rest) := by
  constructor
  · intro decodes
    have found := decodes largeFat (Fat.declaringSectors 0xFFFFFFFF) largeFatGeometry 5 [3] []
      (by decide +kernel) largeFat_stores
    have failed : ((Exfat.chainOn largeFat (Fat.chainGeometryOf largeFatGeometry)).chainFrom 5 []).1 =
        .error { code := .kOutOfRange, offset := 1073742304 } := by decide +kernel
    exact nomatch failed.symm.trans found
  · intro decodes
    have found := decodes largeExfat (declaringClusters 0x10000000) largeExfatGeometry 4 [3] []
      (by decide +kernel) largeExfat_stores
    have failed : ((Exfat.chainOn largeExfat (Exfat.chainGeometryOf largeExfatGeometry)).chainFrom 4
        []).1 = .error { code := .kOutOfRange, offset := 1073742332 } := by decide +kernel
    exact nomatch failed.symm.trans found

theorem chainFrom_decodes_large :
    (((Exfat.chainOn largeFat (Fat.chainGeometryOf largeFatGeometry)).chainFrom 5 []).1 = .ok [5, 3] ↔
      kFirstCluster + largeFatGeometry.totalClusters ≤
        entryOf largeFat (Fat.chainGeometryOf largeFatGeometry) ([3].getLastD 5) % 2 ^ 28) ∧
    (((Exfat.chainOn largeExfat (Exfat.chainGeometryOf largeExfatGeometry)).chainFrom 4 []).1 =
        .ok [4, 3] ↔
      kFirstCluster + largeExfatGeometry.totalClusters ≤ 0x0FFFFFFF) := by
  have fat : Fat.parseFat32BootSector (Fat.declaringSectors 0xFFFFFFFF) = .ok largeFatGeometry := by
    decide +kernel
  have exfat : Exfat.parseExfatBootSector (declaringClusters 0x10000000) = .ok largeExfatGeometry := by
    decide +kernel
  constructor
  · exact (chainFrom_decodes largeFat _ 5 [3] []).1 largeFatGeometry fat largeFat_stores
  · exact (chainFrom_decodes largeExfat _ 4 [3] []).2 largeExfatGeometry exfat largeExfat_stores

end SmallTables

end ClusterChain
end Revenant
