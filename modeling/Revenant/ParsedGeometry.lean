import Revenant.ExfatVolume
import Revenant.Ext4Volume
import Revenant.NtfsRecord
import Mathlib.Tactic.Positivity
import Mathlib.Tactic.Ring

/-!
# What a parsed geometry is

Every geometry a boot sector is accepted with keeps the offsets derived from it
within what 64-bit arithmetic can express.
-/

namespace Revenant

open ByteLayout

theorem readLe_lt_of_ok {width : Nat} {data : Bytes} {offset value : Nat}
    (read : ByteReader.readLe width data offset = .ok value) : value < 256 ^ width := by
  rw [(ByteReader.readLe_eq_ok_iff.mp read).2]
  exact ByteLayout.readLe_lt _ _ _

theorem safeMul32_ok {a b offset product : Nat} (fits : safeMul32 a b offset = .ok product) :
    product = a * b := by
  rw [safeMul32, reject_eq_ok_iff, Except.ok.injEq] at fits
  exact fits.2.symm

namespace BpbFields

theorem bytesPerSector_ok {sector : Bytes} {value : Nat} (read : bytesPerSector sector = .ok value) :
    0 < value ∧ value ≤ 4096 := by
  simp only [bytesPerSector, bind_eq_ok_iff, invalidAt, reject_eq_ok_iff, pure_eq_ok_iff] at read
  obtain ⟨raw, -, known, rfl⟩ := read
  simp only [isKnownSectorSize, Bool.not_eq_true', Bool.not_eq_false, Bool.or_eq_true,
    beq_iff_eq] at known
  omega

theorem sectorsPerCluster_ok {sector : Bytes} {value : Nat}
    (read : sectorsPerCluster sector = .ok value) : 0 < value ∧ value ≤ 128 := by
  simp only [sectorsPerCluster, bind_eq_ok_iff, invalidAt, reject_eq_ok_iff, pure_eq_ok_iff] at read
  obtain ⟨raw, -, known, rfl⟩ := read
  simp only [isPowerOfTwo, kMaxSectorsPerCluster, Bool.or_eq_true, Bool.not_eq_true',
    Bool.and_eq_false_iff, bne_eq_false_iff_eq, not_or] at known
  obtain ⟨⟨positive, -⟩, small⟩ := known
  exact ⟨Nat.pos_of_ne_zero positive, by simpa using small⟩

end BpbFields

namespace Fat

open BpbFields

theorem nonZero_ok {width : Nat} {sector : Bytes} {offset value : Nat}
    (read : nonZero width sector offset = .ok value) : value < 256 ^ width := by
  simp only [nonZero, bind_eq_ok_iff, invalidAt, reject_eq_ok_iff, pure_eq_ok_iff] at read
  obtain ⟨raw, found, -, rfl⟩ := read
  exact readLe_lt_of_ok found

/-- The fields of a BPB that was accepted. -/
structure Bpb.Bounded (bpb : Bpb) : Prop where
  sector : 0 < bpb.bytesPerSector ∧ bpb.bytesPerSector ≤ 4096
  cluster : 0 < bpb.sectorsPerCluster ∧ bpb.sectorsPerCluster ≤ 128
  total : bpb.totalSectors < 2 ^ 32

theorem readBpb_bounded {sector : Bytes} {bpb : Bpb} (read : readBpb sector = .ok bpb) :
    bpb.Bounded := by
  simp only [readBpb, bind_eq_ok_iff, pure_eq_ok_iff] at read
  obtain ⟨bytes, sectorBytes, clusters, clusterSectors, _, -, _, -, _, -, total, totalRead, _, -,
    rfl⟩ := read
  exact ⟨bytesPerSector_ok sectorBytes, sectorsPerCluster_ok clusterSectors, nonZero_ok totalRead⟩

theorem geometryFrom_sound {bpb : Bpb} (bounded : bpb.Bounded) {geometry : Fat32Geometry}
    (found : geometryFrom bpb = .ok geometry) : (chainGeometryOf geometry).Sound := by
  simp only [geometryFrom, bind_eq_ok_iff, pure_eq_ok_iff] at found
  obtain ⟨dataStart, -, clusters, clustersEq, root, -, _, -, _, -, dataOffset, dataEq, clusterBytes,
    bytesEq, rfl⟩ := found
  simp only [dataClusters, invalidAt, reject_eq_ok_iff, Except.ok.injEq] at clustersEq
  obtain ⟨inside, -, rfl⟩ := clustersEq
  obtain ⟨-, rfl⟩ := safeMul64_eq_ok_iff.mp dataEq
  obtain rfl := safeMul32_ok bytesEq
  obtain ⟨sectorPos, sectorLe⟩ := bounded.sector
  obtain ⟨clusterPos, clusterLe⟩ := bounded.cluster
  have total := bounded.total
  refine ⟨Nat.mul_pos sectorPos clusterPos, ?_⟩
  -- the data region ends no later than the sectors the BPB counts
  have clustersFit : (bpb.totalSectors - dataStart) / bpb.sectorsPerCluster * bpb.sectorsPerCluster ≤
      bpb.totalSectors - dataStart := Nat.div_mul_le_self _ _
  have ends : dataStart * bpb.bytesPerSector +
      (bpb.totalSectors - dataStart) / bpb.sectorsPerCluster *
        (bpb.bytesPerSector * bpb.sectorsPerCluster) ≤ bpb.totalSectors * bpb.bytesPerSector := by
    calc dataStart * bpb.bytesPerSector +
          (bpb.totalSectors - dataStart) / bpb.sectorsPerCluster *
            (bpb.bytesPerSector * bpb.sectorsPerCluster)
        = (dataStart + (bpb.totalSectors - dataStart) / bpb.sectorsPerCluster *
            bpb.sectorsPerCluster) * bpb.bytesPerSector := by ring
      _ ≤ bpb.totalSectors * bpb.bytesPerSector := Nat.mul_le_mul_right _ (by omega)
  have small : bpb.totalSectors * bpb.bytesPerSector ≤ 2 ^ 32 * 4096 :=
    Nat.mul_le_mul total.le sectorLe
  exact lt_of_le_of_lt (ends.trans small) (by decide)

theorem parseFat32BootSector_sound {sector : Bytes} {geometry : Fat32Geometry}
    (parsed : parseFat32BootSector sector = .ok geometry) : (chainGeometryOf geometry).Sound := by
  simp only [parseFat32BootSector, reject_eq_ok_iff, bind_eq_ok_iff] at parsed
  obtain ⟨-, _, -, _, -, _, -, bpb, read, found⟩ := parsed
  exact geometryFrom_sound (readBpb_bounded read) found

end Fat

namespace Exfat

theorem bytesPerSector_ok {sector : Bytes} {value : Nat} (read : bytesPerSector sector = .ok value) :
    ∃ shift ≤ 12, value = 2 ^ shift := by
  simp only [bytesPerSector, bind_eq_ok_iff, invalidAt, reject_eq_ok_iff, pure_eq_ok_iff] at read
  obtain ⟨shift, -, range, rfl⟩ := read
  unfold kMinSectorShift kMaxSectorShift at range
  exact ⟨shift, by omega, Nat.one_shiftLeft shift⟩

theorem sectorsPerCluster_ok {sector : Bytes} {sectorShift value : Nat}
    (read : sectorsPerCluster sector (2 ^ sectorShift) = .ok value) :
    ∃ shift, shift + sectorShift ≤ 25 ∧ value = 2 ^ shift := by
  simp only [sectorsPerCluster, bind_eq_ok_iff, invalidAt, reject_eq_ok_iff, pure_eq_ok_iff,
    Nat.log2_two_pow] at read
  obtain ⟨shift, -, range, rfl⟩ := read
  unfold kMaxClusterShiftSum at range
  exact ⟨shift, by omega, Nat.one_shiftLeft shift⟩

/-- The fields of a boot region that was accepted. -/
structure BootRegion.Bounded (region : BootRegion) : Prop where
  clusterPos : 0 < region.bytesPerSector * region.sectorsPerCluster
  clusterLe : region.bytesPerSector * region.sectorsPerCluster ≤ 2 ^ 25
  sectorLe : region.bytesPerSector ≤ 2 ^ 12
  heap : region.clusterHeapSector < 2 ^ 32
  clusters : region.clusterCount < 2 ^ 32

theorem readBootRegion_bounded {sector : Bytes} {region : BootRegion}
    (read : readBootRegion sector = .ok region) : region.Bounded := by
  simp only [readBootRegion, bind_eq_ok_iff, pure_eq_ok_iff] at read
  obtain ⟨bytes, sectorBytes, clusters, clusterSectors, _, -, _, -, heap, heapRead, count, countRead,
    _, -, _, -, _, -, rfl⟩ := read
  obtain ⟨sectorShift, sectorLe, rfl⟩ := bytesPerSector_ok sectorBytes
  obtain ⟨clusterShift, clusterLe, rfl⟩ := sectorsPerCluster_ok clusterSectors
  refine ⟨by positivity, ?_, Nat.pow_le_pow_right (by decide) sectorLe, readLe_lt_of_ok heapRead,
    readLe_lt_of_ok countRead⟩
  rw [← Nat.pow_add]
  exact Nat.pow_le_pow_right (by decide) (by omega)

theorem geometryOf_sound {region : BootRegion} (bounded : region.Bounded) {geometry : ExfatGeometry}
    (found : geometryOf region = .ok geometry) : (chainGeometryOf geometry).Sound := by
  simp only [geometryOf, bind_eq_ok_iff, pure_eq_ok_iff] at found
  obtain ⟨_, -, _, -, _, -, _, -, heapOffset, heapEq, clusterBytes, bytesEq, rfl⟩ := found
  obtain ⟨-, rfl⟩ := safeMul64_eq_ok_iff.mp heapEq
  obtain rfl := safeMul32_ok bytesEq
  refine ⟨bounded.clusterPos, ?_⟩
  have heap : region.clusterHeapSector * region.bytesPerSector ≤ 2 ^ 32 * 2 ^ 12 :=
    Nat.mul_le_mul bounded.heap.le bounded.sectorLe
  have data : region.clusterCount * (region.bytesPerSector * region.sectorsPerCluster) ≤
      2 ^ 32 * 2 ^ 25 := Nat.mul_le_mul bounded.clusters.le bounded.clusterLe
  exact lt_of_le_of_lt (Nat.add_le_add heap data) (by decide)

theorem parseExfatBootSector_sound {sector : Bytes} {geometry : ExfatGeometry}
    (parsed : parseExfatBootSector sector = .ok geometry) : (chainGeometryOf geometry).Sound := by
  simp only [parseExfatBootSector, reject_eq_ok_iff, bind_eq_ok_iff] at parsed
  obtain ⟨-, _, -, _, -, region, read, found⟩ := parsed
  exact geometryOf_sound (readBootRegion_bounded read) found

end Exfat

namespace Ntfs

open BpbFields

theorem parseBootSector_cluster_pos {sector : Bytes} {geometry : NtfsGeometry}
    (parsed : parseBootSector sector = .ok geometry) : 0 < geometry.bytesPerCluster := by
  simp only [parseBootSector, reject_eq_ok_iff, bind_eq_ok_iff, pure_eq_ok_iff] at parsed
  obtain ⟨-, _, -, bytes, sectorBytes, clusters, clusterSectors, clusterBytes, bytesEq, _, -, _, -, _,
    -, _, -, _, -, rfl⟩ := parsed
  obtain rfl := safeMul32_ok bytesEq
  exact Nat.mul_pos (BpbFields.bytesPerSector_ok sectorBytes).1
    (BpbFields.sectorsPerCluster_ok clusterSectors).1

end Ntfs

namespace Ext4

theorem blockSize_ok {block : Bytes} {value : Nat} (read : blockSize block = .ok value) :
    kMinBlockSize ≤ value ∧ value ≤ 65536 := by
  simp only [blockSize, blockShift, bind_eq_ok_iff, invalidAt, reject_eq_ok_iff,
    pure_eq_ok_iff] at read
  obtain ⟨shift, ⟨raw, -, range, rfl⟩, rfl⟩ := read
  unfold kMaxBlockShift at range
  rw [Nat.shiftLeft_eq, kMinBlockSize]
  refine ⟨Nat.le_mul_of_pos_right 1024 (by positivity), ?_⟩
  calc 1024 * 2 ^ raw ≤ 1024 * 2 ^ 6 := Nat.mul_le_mul_left _ (Nat.pow_le_pow_right (by decide) (by omega))
    _ = 65536 := by decide

theorem parseExt4Superblock_block {superblock : Bytes} {geometry : Ext4Geometry}
    (parsed : parseExt4Superblock superblock = .ok geometry) :
    kMinBlockSize ≤ geometry.blockSizeBytes ∧ geometry.blockSizeBytes ≤ 65536 := by
  simp only [parseExt4Superblock, reject_eq_ok_iff, bind_eq_ok_iff] at parsed
  obtain ⟨-, _, -, fields, read, found⟩ := parsed
  simp only [readFields, bind_eq_ok_iff, pure_eq_ok_iff] at read
  obtain ⟨blockBytes, size, _, -, _, -, _, -, _, -, _, -, _, -, _, -, _, -, _, -, rfl⟩ := read
  simp only [geometryOf, invalidAt, reject_eq_ok_iff, Except.ok.injEq] at found
  obtain ⟨-, -, rfl⟩ := found
  exact blockSize_ok size

theorem inodeSize_ok {block : Bytes} {blockSizeBytes value : Nat}
    (read : inodeSize block blockSizeBytes = .ok value) : kMinInodeSize ≤ value := by
  simp only [inodeSize, bind_eq_ok_iff, invalidAt, reject_eq_ok_iff, pure_eq_ok_iff] at read
  obtain ⟨raw, -, sized, rfl⟩ := read
  simp only [isBlockSizedPowerOfTwo, Bool.not_eq_true', Bool.not_eq_false, Bool.and_eq_true,
    decide_eq_true_eq] at sized
  exact sized.1.2

theorem descriptorSize_ok {block : Bytes} {features blockSizeBytes value : Nat}
    (read : descriptorSize block features blockSizeBytes = .ok value) :
    kSmallDescriptorSize ≤ value := by
  unfold descriptorSize at read
  split at read
  case isTrue =>
      rw [Except.ok.injEq] at read
      exact read.le
  case isFalse =>
      simp only [bind_eq_ok_iff, invalidAt, reject_eq_ok_iff, pure_eq_ok_iff] at read
      obtain ⟨raw, -, sized, rfl⟩ := read
      simp only [isBlockSizedPowerOfTwo, Bool.not_eq_true', Bool.not_eq_false, Bool.and_eq_true,
        decide_eq_true_eq] at sized
      exact le_trans (by decide) sized.1.2

theorem perGroupCount_ok {block : Bytes} {offset blockSizeBytes value : Nat}
    (read : perGroupCount block offset blockSizeBytes = .ok value) : 0 < value := by
  simp only [perGroupCount, bind_eq_ok_iff, invalidAt, reject_eq_ok_iff, pure_eq_ok_iff,
    not_or] at read
  obtain ⟨raw, -, ⟨some_, -⟩, rfl⟩ := read
  exact Nat.pos_of_ne_zero some_

theorem parseExt4Superblock_sizes {superblock : Bytes} {geometry : Ext4Geometry}
    (parsed : parseExt4Superblock superblock = .ok geometry) :
    kMinInodeSize ≤ geometry.inodeSizeBytes ∧
      kSmallDescriptorSize ≤ geometry.descriptorSizeBytes ∧ 0 < geometry.inodesPerGroup := by
  simp only [parseExt4Superblock, reject_eq_ok_iff, bind_eq_ok_iff] at parsed
  obtain ⟨-, _, -, fields, read, found⟩ := parsed
  simp only [readFields, bind_eq_ok_iff, pure_eq_ok_iff] at read
  obtain ⟨_, -, _, -, _, -, _, -, _, -, _, inodes, _, inode, _, descriptor, _, -, _, -, rfl⟩ := read
  simp only [geometryOf, invalidAt, reject_eq_ok_iff, Except.ok.injEq] at found
  obtain ⟨-, -, rfl⟩ := found
  exact ⟨inodeSize_ok inode, descriptorSize_ok descriptor, perGroupCount_ok inodes⟩

end Ext4

end Revenant
