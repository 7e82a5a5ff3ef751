import Revenant.EntryContent
import Revenant.ParsedGeometry

/-!
# The offsets the code computes

Every byte offset is a 64-bit number, computed by products and sums most of which are
not checked.  Written out as the code computes them, they equal the same expressions
over unbounded numbers, for every volume its parser accepts.
-/

namespace Revenant

open Consulting ExtentSpan

section Words

variable {a b : UInt64} {m n : Nat}

theorem toNat_ofNat_exact (fits : n < 2 ^ 64) : (UInt64.ofNat n).toNat = n := by
  rw [UInt64.toNat_ofNat', Nat.mod_eq_of_lt fits]

theorem toNat_add_exact (first : a.toNat = m) (second : b.toNat = n) (fits : m + n < 2 ^ 64) :
    (a + b).toNat = m + n := by
  rw [UInt64.toNat_add, first, second, Nat.mod_eq_of_lt fits]

theorem toNat_mul_exact (first : a.toNat = m) (second : b.toNat = n) (fits : m * n < 2 ^ 64) :
    (a * b).toNat = m * n := by
  rw [UInt64.toNat_mul, first, second, Nat.mod_eq_of_lt fits]

theorem toNat_sub_exact (first : a.toNat = m) (second : b.toNat = n) (less : n ≤ m) :
    (a - b).toNat = m - n := by
  rw [UInt64.toNat_sub_of_le, first, second]
  rw [UInt64.le_iff_toNat_le, first, second]
  exact less

end Words

/-- A source nothing is read from. -/
def nowhere : Source := fun _ => ⟨0, kDefaultSectorSize, fun _ _ => .ok []⟩

namespace ClusterGeometry

variable (geometry : ClusterGeometry)

/-- Where a cluster's table entry is, in 64 bits. -/
def entryWord (cluster : UInt32) : UInt64 :=
  UInt64.ofNat geometry.tableOffsetBytes + cluster.toUInt64 * 4

/-- Where the table ends, in 64 bits. -/
def tableEndWord : UInt64 :=
  UInt64.ofNat geometry.tableOffsetBytes + UInt64.ofNat geometry.tableSizeBytes

/-- Where a cluster begins, in 64 bits.  The index wraps below the first cluster. -/
def clusterWord (cluster : UInt32) : UInt64 :=
  UInt64.ofNat geometry.dataOffsetBytes +
    (cluster.toUInt64 - 2) * UInt64.ofNat geometry.bytesPerCluster

/-- One more than the last cluster a run of `sizeBytes` from `first` would take, in 64
bits. -/
def reachWord (first : UInt32) (sizeBytes : UInt64) : UInt64 :=
  first.toUInt64 + ((sizeBytes - 1) / UInt64.ofNat geometry.bytesPerCluster + 1)

/-- A table that ends far below 2^64, and clusters of more than one byte. -/
structure TableFits : Prop where
  offset : geometry.tableOffsetBytes < 2 ^ 62
  size : geometry.tableSizeBytes < 2 ^ 62
  cluster : 2 ≤ geometry.bytesPerCluster ∧ geometry.bytesPerCluster < 2 ^ 62

/-- An extent that starts where one of the clusters does, its end no smaller than its
start. -/
structure ExtentExact (clusters : List UInt32) (extent : Extent) : Prop where
  start : ∃ cluster ∈ clusters, extent.deviceOffset = geometry.clusterWord cluster
  end_ : (extent.deviceOffset + extent.lengthBytes).toNat =
    extent.deviceOffset.toNat + extent.lengthBytes.toNat

/-- Clusters the code follows: data clusters, no more of them than the volume has. -/
structure Followed (clusters : List UInt32) : Prop where
  few : clusters.length ≤ geometry.totalClusters
  data : ∀ cluster ∈ clusters, ∀ source,
    (ClusterChain.mk source geometry).isDataCluster cluster = true

/-- Nothing computed from a geometry wraps: table entries, clusters, and the runs that
clusters are restated as. -/
structure Exact : Prop where
  tableOffset : geometry.tableOffsetBytes < 2 ^ 64
  dataOffset : geometry.dataOffsetBytes < 2 ^ 64
  followed : ∀ source first,
    Yields ((ClusterChain.mk source geometry).chainFrom first) geometry.Followed
  entry : ∀ cluster : UInt32,
    (geometry.entryWord cluster).toNat = geometry.tableOffsetBytes + cluster.toNat * 4
  entryEnd : ∀ cluster : UInt32,
    (geometry.entryWord cluster + 4).toNat = geometry.tableOffsetBytes + cluster.toNat * 4 + 4
  tableEnd : geometry.tableEndWord.toNat = geometry.tableOffsetBytes + geometry.tableSizeBytes
  cluster : ∀ source cluster, (ClusterChain.mk source geometry).isDataCluster cluster = true →
    (geometry.clusterWord cluster).toNat =
      geometry.dataOffsetBytes + (cluster.toNat - 2) * geometry.bytesPerCluster
  clusterEnd : ∀ source cluster, (ClusterChain.mk source geometry).isDataCluster cluster = true →
    (geometry.clusterWord cluster + UInt64.ofNat geometry.bytesPerCluster).toNat =
      geometry.dataOffsetBytes + (cluster.toNat - 2) * geometry.bytesPerCluster +
        geometry.bytesPerCluster
  reach : ∀ (first : UInt32) (sizeBytes : UInt64), sizeBytes ≠ 0 →
    (geometry.reachWord first sizeBytes).toNat =
      first.toNat + ((sizeBytes.toNat - 1) / geometry.bytesPerCluster + 1)
  contiguous : ∀ source first sizeBytes,
    (ClusterChain.mk source geometry).isDataCluster first = true →
    ∀ extent ∈ (ClusterChain.mk source geometry).extentsAssumingContiguous first sizeBytes,
      geometry.ExtentExact [first] extent
  merged : ∀ clusters, geometry.Followed clusters →
    ∀ extent ∈ (clusters.map (ClusterChain.clusterExtent geometry)).foldl appendExtent [],
      geometry.ExtentExact clusters extent
  chained : ∀ clusters, geometry.Followed clusters → ∀ sizeBytes extents,
    ClusterChain.chainExtents clusters geometry sizeBytes = .ok extents →
    ∀ extent ∈ extents, geometry.ExtentExact clusters extent

variable {geometry}

theorem clusterWord_exact (sound : geometry.Sound) {source : Source} {cluster : UInt32}
    (data : (ClusterChain.mk source geometry).isDataCluster cluster = true) :
    (geometry.clusterWord cluster).toNat =
      geometry.dataOffsetBytes + (cluster.toNat - 2) * geometry.bytesPerCluster := by
  have fits := ClusterChain.cluster_end_le data
  have inside := (ClusterChain.isDataCluster_iff.mp data).1
  have addressable := sound.addressable
  unfold dataEnd at addressable
  simp only [kFirstCluster] at fits inside
  have clusterBytes : geometry.bytesPerCluster < 2 ^ 64 := by omega
  have index : (cluster.toUInt64 - 2).toNat = cluster.toNat - 2 :=
    toNat_sub_exact (UInt32.toNat_toUInt64 cluster) rfl inside
  have product : ((cluster.toUInt64 - 2) * UInt64.ofNat geometry.bytesPerCluster).toNat =
      (cluster.toNat - 2) * geometry.bytesPerCluster :=
    toNat_mul_exact index (toNat_ofNat_exact clusterBytes) (by omega)
  exact toNat_add_exact (toNat_ofNat_exact (by omega)) product (by omega)

/-- The model's offset of a data cluster is the code's. -/
theorem clusterOffset_eq_clusterWord (sound : geometry.Sound) {source : Source} {cluster : UInt32}
    (data : (ClusterChain.mk source geometry).isDataCluster cluster = true) :
    clusterOffset geometry cluster = geometry.clusterWord cluster := by
  rw [← UInt64.toNat_inj, clusterWord_exact sound data]
  exact ClusterChain.toNat_clusterOffset sound data

theorem entryWord_exact (fits : geometry.TableFits) (cluster : UInt32) :
    (geometry.entryWord cluster).toNat = geometry.tableOffsetBytes + cluster.toNat * 4 := by
  have offset := fits.offset
  have bound := cluster.toNat_lt
  have product : (cluster.toUInt64 * 4).toNat = cluster.toNat * 4 :=
    toNat_mul_exact (UInt32.toNat_toUInt64 cluster) rfl (by omega)
  exact toNat_add_exact (toNat_ofNat_exact (by omega)) product (by omega)

theorem reachWord_exact (fits : geometry.TableFits) (first : UInt32) {sizeBytes : UInt64}
    (some_ : sizeBytes ≠ 0) :
    (geometry.reachWord first sizeBytes).toNat =
      first.toNat + ((sizeBytes.toNat - 1) / geometry.bytesPerCluster + 1) := by
  obtain ⟨holds, small⟩ := fits.cluster
  have positive : 1 ≤ sizeBytes.toNat := by
    rw [Nat.one_le_iff_ne_zero]
    exact fun same => some_ (UInt64.toNat_inj.mp same)
  have bound := sizeBytes.toNat_lt
  have firstBound := first.toNat_lt
  have half : (sizeBytes.toNat - 1) / geometry.bytesPerCluster ≤ (sizeBytes.toNat - 1) / 2 :=
    Nat.div_le_div_left holds (by decide)
  have last : (sizeBytes - 1).toNat = sizeBytes.toNat - 1 := toNat_sub_exact rfl rfl positive
  have quotient : ((sizeBytes - 1) / UInt64.ofNat geometry.bytesPerCluster).toNat =
      (sizeBytes.toNat - 1) / geometry.bytesPerCluster := by
    rw [UInt64.toNat_div, last, toNat_ofNat_exact (by omega)]
  have clusters : ((sizeBytes - 1) / UInt64.ofNat geometry.bytesPerCluster + 1).toNat =
      (sizeBytes.toNat - 1) / geometry.bytesPerCluster + 1 :=
    toNat_add_exact quotient rfl (by omega)
  exact toNat_add_exact (UInt32.toNat_toUInt64 first) clusters (by omega)

/-- An extent in the data region ends where its start and length say. -/
theorem end_exact (sound : geometry.Sound) {extent : Extent}
    (lies : Lies geometry.dataOffsetBytes geometry.dataEnd extent) :
    (extent.deviceOffset + extent.lengthBytes).toNat =
      extent.deviceOffset.toNat + extent.lengthBytes.toNat := by
  have before := lies.before
  have addressable := sound.addressable
  exact toNat_add_exact rfl rfl (by omega)

/-- What merging and cutting keep of the extents of clusters. -/
structure Placed (geometry : ClusterGeometry) (clusters : List UInt32) (extent : Extent) : Prop where
  lies : Lies geometry.dataOffsetBytes geometry.dataEnd extent
  start : ∃ cluster ∈ clusters, extent.deviceOffset = geometry.clusterWord cluster

theorem Placed.exact (sound : geometry.Sound) {clusters : List UInt32} {extent : Extent}
    (placed : geometry.Placed clusters extent) : geometry.ExtentExact clusters extent :=
  ⟨placed.start, end_exact sound placed.lies⟩

theorem placed_merges (sound : geometry.Sound) (clusters : List UInt32) :
    Merges (geometry.Placed clusters) := by
  intro extent run placed runPlaced touches sum
  have addressable := sound.addressable
  exact ⟨lies_merges (by omega) extent run placed.lies runPlaced.lies touches sum, placed.start⟩

theorem placed_shortens (clusters : List UInt32) : Shortens (geometry.Placed clusters) := by
  intro extent length placed positive shorter
  exact ⟨lies_shortens extent length placed.lies positive shorter, placed.start⟩

theorem placed_merged (sound : geometry.Sound) {clusters : List UInt32}
    (followed : geometry.Followed clusters) :
    ∀ extent ∈ (clusters.map (ClusterChain.clusterExtent geometry)).foldl appendExtent [],
      geometry.Placed clusters extent := by
  have placed : ∀ run ∈ clusters.map (ClusterChain.clusterExtent geometry),
      geometry.Placed clusters run := by
    intro run member
    obtain ⟨cluster, mem, rfl⟩ := List.mem_map.mp member
    have data := followed.data cluster mem nowhere
    exact ⟨ClusterChain.lies_clusterExtent sound data, cluster, mem,
      clusterOffset_eq_clusterWord sound data⟩
  have addressable : totalBytes [] +
      totalBytes (clusters.map (ClusterChain.clusterExtent geometry)) < 2 ^ 64 := by
    have total : totalBytes (clusters.map (ClusterChain.clusterExtent geometry)) < 2 ^ 63 :=
      @ClusterChain.totalBytes_clusters ⟨nowhere, geometry⟩ sound clusters followed.few
    rw [totalBytes_nil]
    omega
  exact (foldl_appendExtent_spec (placed_merges sound clusters) [] _ addressable (by simp) placed).1

theorem placed_chained (sound : geometry.Sound) {clusters : List UInt32}
    (followed : geometry.Followed clusters) {sizeBytes : UInt64} {extents : List Extent}
    (found : ClusterChain.chainExtents clusters geometry sizeBytes = .ok extents) :
    ∀ extent ∈ extents, geometry.Placed clusters extent := by
  unfold ClusterChain.chainExtents at found
  split at found
  next =>
      cases found
      exact fun extent member => nomatch member
  next =>
      have merged := placed_merged sound followed
      exact (trimToSize_spec (placed_shortens clusters) found merged fun extent member =>
        (merged extent member).lies.holds).1

theorem placed_contiguous (sound : geometry.Sound) {source : Source} {first : UInt32}
    {sizeBytes : UInt64} (data : (ClusterChain.mk source geometry).isDataCluster first = true) :
    ∀ extent ∈ (ClusterChain.mk source geometry).extentsAssumingContiguous first sizeBytes,
      geometry.Placed [first] extent := by
  intro extent member
  have lies := (ClusterChain.extentsAssumingContiguous_located sound data sizeBytes).1 extent member
  refine ⟨lies, first, List.mem_singleton_self first, ?_⟩
  unfold ClusterChain.extentsAssumingContiguous at member
  split at member
  next => cases member
  next =>
      dsimp only at member
      split at member
      next => cases member
      next =>
          rw [List.mem_singleton.mp member]
          exact clusterOffset_eq_clusterWord sound data

theorem exact_of_sound (sound : geometry.Sound) (fits : geometry.TableFits) : geometry.Exact where
  tableOffset := by
    have offset := fits.offset
    omega
  dataOffset := by
    have addressable := sound.addressable
    unfold dataEnd at addressable
    omega
  followed _ first := (ClusterChain.follow_yields _ first).mono fun _ followed =>
    ⟨followed.1, fun cluster member _ => followed.2 cluster member⟩
  entry := entryWord_exact fits
  entryEnd cluster := by
    have offset := fits.offset
    have bound := cluster.toNat_lt
    exact toNat_add_exact (entryWord_exact fits cluster) rfl (by omega)
  tableEnd := by
    have offset := fits.offset
    have size := fits.size
    exact toNat_add_exact (toNat_ofNat_exact (by omega)) (toNat_ofNat_exact (by omega)) (by omega)
  cluster _ _ data := clusterWord_exact sound data
  clusterEnd _ cluster data := by
    have inside := ClusterChain.cluster_end_le data
    have addressable := sound.addressable
    unfold dataEnd at addressable
    simp only [kFirstCluster] at inside
    exact toNat_add_exact (clusterWord_exact sound data) (toNat_ofNat_exact (by omega)) (by omega)
  reach first _ some_ := reachWord_exact fits first some_
  contiguous _ _ _ data extent member := (placed_contiguous sound data extent member).exact sound
  merged _ followed extent member := (placed_merged sound followed extent member).exact sound
  chained _ followed _ _ found extent member :=
    (placed_chained sound followed found extent member).exact sound

end ClusterGeometry

theorem BpbFields.bytesPerSector_least {sector : Bytes} {value : Nat}
    (read : BpbFields.bytesPerSector sector = .ok value) : 512 ≤ value := by
  simp only [bytesPerSector, bind_eq_ok_iff, invalidAt, reject_eq_ok_iff, pure_eq_ok_iff] at read
  obtain ⟨raw, -, known, rfl⟩ := read
  simp only [isKnownSectorSize, Bool.not_eq_true', Bool.not_eq_false, Bool.or_eq_true,
    beq_iff_eq] at known
  omega

namespace Fat

theorem parseFat32BootSector_tableFits {sector : Bytes} {geometry : Fat32Geometry}
    (parsed : parseFat32BootSector sector = .ok geometry) :
    (chainGeometryOf geometry).TableFits := by
  simp only [parseFat32BootSector, reject_eq_ok_iff, bind_eq_ok_iff] at parsed
  obtain ⟨-, _, -, _, -, _, -, bpb, read, found⟩ := parsed
  simp only [readBpb, bind_eq_ok_iff, pure_eq_ok_iff] at read
  obtain ⟨bytes, sectorBytes, clusters, clusterSectors, reserved, reservedRead, _, -, fat, fatRead, _,
    -, _, -, rfl⟩ := read
  simp only [geometryFrom, bind_eq_ok_iff, pure_eq_ok_iff] at found
  obtain ⟨dataStart, -, _, -, _, -, offset, offsetEq, size, sizeEq, _, -, clusterBytes, bytesEq,
    rfl⟩ := found
  obtain ⟨-, rfl⟩ := safeMul64_eq_ok_iff.mp offsetEq
  obtain ⟨-, rfl⟩ := safeMul64_eq_ok_iff.mp sizeEq
  obtain rfl := safeMul32_ok bytesEq
  have sectorLe := (BpbFields.bytesPerSector_ok sectorBytes).2
  have sectorLeast := BpbFields.bytesPerSector_least sectorBytes
  obtain ⟨clusterPos, clusterLe⟩ := BpbFields.sectorsPerCluster_ok clusterSectors
  have reservedLt : reserved < 256 ^ 2 := nonZero_ok reservedRead
  have fatLt : fat < 256 ^ 4 := nonZero_ok fatRead
  constructor
  · exact lt_of_le_of_lt (Nat.mul_le_mul reservedLt.le sectorLe) (by decide)
  · exact lt_of_le_of_lt (Nat.mul_le_mul fatLt.le sectorLe) (by decide)
  · constructor
    · exact le_trans (by decide) (Nat.mul_le_mul sectorLeast clusterPos)
    · exact lt_of_le_of_lt (Nat.mul_le_mul sectorLe clusterLe) (by decide)

end Fat

namespace Exfat

theorem bytesPerSector_least {sector : Bytes} {value : Nat}
    (read : bytesPerSector sector = .ok value) : 512 ≤ value := by
  simp only [bytesPerSector, bind_eq_ok_iff, invalidAt, reject_eq_ok_iff, pure_eq_ok_iff] at read
  obtain ⟨shift, -, range, rfl⟩ := read
  have least : kMinSectorShift ≤ shift := by omega
  have power : 2 ^ 9 ≤ 2 ^ shift := Nat.pow_le_pow_right (by decide) least
  rw [Nat.one_shiftLeft]
  exact power

theorem parseExfatBootSector_tableFits {sector : Bytes} {geometry : ExfatGeometry}
    (parsed : parseExfatBootSector sector = .ok geometry) :
    (chainGeometryOf geometry).TableFits := by
  simp only [parseExfatBootSector, reject_eq_ok_iff, bind_eq_ok_iff] at parsed
  obtain ⟨-, _, -, _, -, region, read, found⟩ := parsed
  have bounded := readBootRegion_bounded read
  simp only [readBootRegion, bind_eq_ok_iff, pure_eq_ok_iff] at read
  obtain ⟨bytes, sectorBytes, clusters, clusterSectors, fatSector, fatSectorRead, fatSectors,
    fatSectorsRead, _, -, _, -, _, -, _, -, _, -, rfl⟩ := read
  simp only [geometryOf, bind_eq_ok_iff, pure_eq_ok_iff] at found
  obtain ⟨_, -, _, -, offset, offsetEq, size, sizeEq, _, -, clusterBytes, bytesEq, rfl⟩ := found
  obtain ⟨-, rfl⟩ := safeMul64_eq_ok_iff.mp offsetEq
  obtain ⟨-, rfl⟩ := safeMul64_eq_ok_iff.mp sizeEq
  obtain rfl := safeMul32_ok bytesEq
  have sectorLe := bounded.sectorLe
  have clusterLe := bounded.clusterLe
  have offsetLt : fatSector < 256 ^ 4 := readLe_lt_of_ok fatSectorRead
  have sizeLt : fatSectors < 256 ^ 4 := readLe_lt_of_ok fatSectorsRead
  have clusterPos := bounded.clusterPos
  have somePerCluster : 1 ≤ clusters := by
    rw [Nat.one_le_iff_ne_zero]
    rintro rfl
    exact absurd clusterPos (by simp)
  constructor
  · exact lt_of_le_of_lt (Nat.mul_le_mul offsetLt.le sectorLe) (by decide)
  · exact lt_of_le_of_lt (Nat.mul_le_mul sizeLt.le sectorLe) (by decide)
  · constructor
    · exact le_trans (by decide) (Nat.mul_le_mul (bytesPerSector_least sectorBytes) somePerCluster)
    · exact lt_of_le_of_lt clusterLe (by decide)

end Exfat

namespace Ntfs

open ExtentSpan

namespace NtfsGeometry

variable (geometry : NtfsGeometry)

/-- Where a run begins, in 64 bits. -/
def runStartWord (run : DataRun) : UInt64 :=
  UInt64.ofNat run.startCluster * UInt64.ofNat geometry.bytesPerCluster

/-- How long a run is, in 64 bits. -/
def runLengthWord (run : DataRun) : UInt64 :=
  UInt64.ofNat run.lengthClusters * UInt64.ofNat geometry.bytesPerCluster

/-- Where in the table a record begins, in 64 bits. -/
def recordWord (number : Nat) : UInt64 :=
  UInt64.ofNat number * UInt64.ofNat geometry.bytesPerMftRecord

/-- Nothing computed from a geometry wraps: the table's place, the runs of a runlist
that maps, the extents cut from them, and the records of the table. -/
structure Exact : Prop where
  mftOffset : ∃ cluster < geometry.totalClusters,
    geometry.mftOffsetBytes = cluster * geometry.bytesPerCluster ∧ geometry.mftOffsetBytes < 2 ^ 64
  runStart : ∀ runlist volumeBytes,
    safeMul64 geometry.totalClusters geometry.bytesPerCluster 0 = .ok volumeBytes →
    allRunsMappable runlist geometry = true → ∀ run ∈ runlist.runs,
      (geometry.runStartWord run).toNat = run.startCluster * geometry.bytesPerCluster
  runEnd : ∀ runlist volumeBytes,
    safeMul64 geometry.totalClusters geometry.bytesPerCluster 0 = .ok volumeBytes →
    allRunsMappable runlist geometry = true → ∀ run ∈ runlist.runs,
      (geometry.runStartWord run + geometry.runLengthWord run).toNat =
        run.startCluster * geometry.bytesPerCluster + run.lengthClusters * geometry.bytesPerCluster
  extent : ∀ data extents, runExtents data geometry = .ok extents → ∀ extent ∈ extents,
    (extent.deviceOffset + extent.lengthBytes).toNat =
      extent.deviceOffset.toNat + extent.lengthBytes.toNat
  consumed : ∀ data extents, runExtents data geometry = .ok extents → totalBytes extents < 2 ^ 64
  record : ∀ recordZero extents recordCount,
    layoutFrom recordZero geometry = .ok (extents, recordCount) → ∀ number < recordCount,
      (geometry.recordWord number).toNat = number * geometry.bytesPerMftRecord
  located : ∀ recordZero extents recordCount,
    layoutFrom recordZero geometry = .ok (extents, recordCount) → ∀ number < recordCount,
      ∀ offset, locateInExtents extents (number * geometry.bytesPerMftRecord)
        geometry.bytesPerMftRecord = .ok offset →
      offset + geometry.bytesPerMftRecord < 2 ^ 64

variable {geometry}

theorem mappable_fits {runlist : Runlist} (mappable : allRunsMappable runlist geometry = true) :
    ∀ run ∈ runlist.runs, run.startCluster + run.lengthClusters ≤ geometry.totalClusters := by
  intro run member
  simp only [allRunsMappable, Bool.not_eq_true', List.any_eq_false, Bool.or_eq_true, not_or,
    Bool.not_eq_true, Bool.not_eq_false, runFitsVolume, Bool.and_eq_true,
    decide_eq_true_eq] at mappable
  have fits := (mappable run member).2
  omega

theorem runWords_exact (cluster : 0 < geometry.bytesPerCluster)
    (clusterFits : geometry.bytesPerCluster < 2 ^ 32)
    (addressable : geometry.declaredEnd ≤ kMax) {run : DataRun}
    (fits : run.startCluster + run.lengthClusters ≤ geometry.totalClusters) :
    (geometry.runStartWord run).toNat = run.startCluster * geometry.bytesPerCluster ∧
      (geometry.runStartWord run + geometry.runLengthWord run).toNat =
        run.startCluster * geometry.bytesPerCluster +
          run.lengthClusters * geometry.bytesPerCluster := by
  have ends : run.startCluster * geometry.bytesPerCluster +
      run.lengthClusters * geometry.bytesPerCluster ≤ geometry.declaredEnd := by
    rw [← Nat.add_mul]
    exact Nat.mul_le_mul_right _ fits
  have whole : geometry.totalClusters ≤ geometry.declaredEnd := Nat.le_mul_of_pos_right _ cluster
  have startLe := Nat.le_mul_of_pos_right run.startCluster cluster
  have lengthLe := Nat.le_mul_of_pos_right run.lengthClusters cluster
  unfold kMax at addressable
  have size : (UInt64.ofNat geometry.bytesPerCluster).toNat = geometry.bytesPerCluster :=
    toNat_ofNat_exact (by omega)
  have start : (geometry.runStartWord run).toNat = run.startCluster * geometry.bytesPerCluster :=
    toNat_mul_exact (toNat_ofNat_exact (by omega)) size (by omega)
  have length : (geometry.runLengthWord run).toNat =
      run.lengthClusters * geometry.bytesPerCluster :=
    toNat_mul_exact (toNat_ofNat_exact (by omega)) size (by omega)
  exact ⟨start, toNat_add_exact start length (by omega)⟩

/-- The runs' extents hold the declared size and lie in the declared volume. -/
theorem extents_lie (cluster : 0 < geometry.bytesPerCluster) {data : MftData} {extents : List Extent}
    (found : runExtents data geometry = .ok extents) :
    geometry.declaredEnd < 2 ^ 64 ∧ totalBytes extents ≤ data.realSize.toNat ∧
      ∀ extent ∈ extents, Lies 0 geometry.declaredEnd extent := by
  have spans := runExtents_spans cluster found
  simp only [runExtents, runlistExtents, bind_eq_ok_iff, safeMul64_eq_ok_iff] at found
  obtain ⟨_, -, _, ⟨addressable, -⟩, -⟩ := found
  unfold kMax at addressable
  refine ⟨by unfold declaredEnd; omega, ?_, spans.1⟩
  rcases eq_or_ne extents [] with rfl | some_
  · exact Nat.zero_le _
  · exact (spans.2 some_).le

theorem layoutFrom_ok {recordZero : MftRecordView} {extents : List Extent} {recordCount : Nat}
    (found : layoutFrom recordZero geometry = .ok (extents, recordCount)) :
    ∃ data, nonResidentData recordZero = some data ∧ runExtents data geometry = .ok extents ∧
      recordCount = data.realSize.toNat / geometry.bytesPerMftRecord := by
  unfold layoutFrom at found
  split at found
  next => cases found
  next data held =>
      simp only [map_eq_ok_iff, Prod.mk.injEq] at found
      obtain ⟨_, runs, rfl, rfl⟩ := found
      exact ⟨data, held, runs, rfl⟩

theorem exact_of_fields (cluster : 0 < geometry.bytesPerCluster)
    (clusterFits : geometry.bytesPerCluster < 2 ^ 32)
    (recordFits : geometry.bytesPerMftRecord < 2 ^ 32)
    (mftOffset : ∃ cluster < geometry.totalClusters,
      geometry.mftOffsetBytes = cluster * geometry.bytesPerCluster ∧
        geometry.mftOffsetBytes < 2 ^ 64) : geometry.Exact where
  mftOffset := mftOffset
  runStart runlist _ volume mappable run member :=
    (runWords_exact cluster clusterFits (safeMul64_eq_ok_iff.mp volume).1 (mappable_fits mappable run member)).1
  runEnd runlist _ volume mappable run member :=
    (runWords_exact cluster clusterFits (safeMul64_eq_ok_iff.mp volume).1 (mappable_fits mappable run member)).2
  extent data extents found extent member := by
    obtain ⟨addressable, -, lie⟩ := extents_lie cluster found
    have before := (lie extent member).before
    exact toNat_add_exact rfl rfl (by omega)
  consumed data extents found := by
    have total := (extents_lie cluster found).2.1
    have bound := data.realSize.toNat_lt
    omega
  record recordZero extents recordCount found number less := by
    obtain ⟨data, -, -, rfl⟩ := layoutFrom_ok found
    have bound := data.realSize.toNat_lt
    have positive : 0 < geometry.bytesPerMftRecord := by
      by_contra none_
      rw [Nat.eq_zero_of_not_pos none_, Nat.div_zero] at less
      exact absurd less (Nat.not_lt_zero _)
    have inside : (number + 1) * geometry.bytesPerMftRecord ≤ data.realSize.toNat :=
      (Nat.le_div_iff_mul_le positive).mp less
    rw [Nat.succ_mul] at inside
    have numberLe := Nat.le_mul_of_pos_right number positive
    exact toNat_mul_exact (toNat_ofNat_exact (by omega)) (toNat_ofNat_exact (by omega)) (by omega)
  located recordZero extents recordCount found number less offset located := by
    obtain ⟨data, -, runs, rfl⟩ := layoutFrom_ok found
    obtain ⟨addressable, -, lie⟩ := extents_lie cluster runs
    obtain ⟨before, extent, ⟨⟨after, split⟩, start, -⟩, fits, rfl, -⟩ := locateInExtents_ok located
    have ends := (lie extent (by rw [split]; simp)).before
    omega

/-- A record is one to 128 strides, or half of one. -/
theorem mftRecordSize_ok {sector : Bytes} {clusterBytes value : Nat}
    (read : mftRecordSize sector clusterBytes = .ok value) : 256 ≤ value ∧ value ≤ 65536 := by
  simp only [mftRecordSize, bind_eq_ok_iff, recordSizeFromRaw, BpbFields.invalidAt,
    reject_eq_ok_iff] at read
  obtain ⟨raw, -, -, read⟩ := read
  split at read
  next =>
      simp only [recordSizeFromClusters, bind_eq_ok_iff, BpbFields.invalidAt, reject_eq_ok_iff,
        pure_eq_ok_iff] at read
      obtain ⟨_, -, range, rfl⟩ := read
      omega
  next =>
      simp only [recordSizeFromLog2, BpbFields.invalidAt, reject_eq_ok_iff, Except.ok.injEq] at read
      obtain ⟨range, rfl⟩ := read
      have least : 2 ^ 8 ≤ 2 ^ (256 - raw) := Nat.pow_le_pow_right (by decide) (by omega)
      have most : 2 ^ (256 - raw) ≤ 2 ^ 16 := Nat.pow_le_pow_right (by decide) (by omega)
      rw [Nat.one_shiftLeft]
      exact ⟨least, most⟩

theorem parseBootSector_exact {sector : Bytes} (parsed : parseBootSector sector = .ok geometry) :
    geometry.Exact := by
  have cluster := parseBootSector_cluster_pos parsed
  simp only [parseBootSector, reject_eq_ok_iff, bind_eq_ok_iff, pure_eq_ok_iff] at parsed
  obtain ⟨-, _, -, bytes, sectorBytes, clusters, clusterSectors, clusterBytes, bytesEq, sectors, -,
    mft, mftRead, offset, offsetEq, recordBytes, recordRead, _, -, rfl⟩ := parsed
  simp only [mftCluster, bind_eq_ok_iff, BpbFields.invalidAt, reject_eq_ok_iff,
    pure_eq_ok_iff] at mftRead
  obtain ⟨_, -, inVolume, rfl⟩ := mftRead
  obtain ⟨addressable, rfl⟩ := safeMul64_eq_ok_iff.mp offsetEq
  have sectorLe := (BpbFields.bytesPerSector_ok sectorBytes).2
  have clusterLe := (BpbFields.sectorsPerCluster_ok clusterSectors).2
  have clusterFits : clusterBytes < 2 ^ 32 := by
    rw [safeMul32_ok bytesEq]
    exact lt_of_le_of_lt (Nat.mul_le_mul sectorLe clusterLe) (by decide)
  apply exact_of_fields cluster clusterFits
  · exact lt_of_le_of_lt (mftRecordSize_ok recordRead).2 (by decide)
  · exact ⟨_, Nat.not_le.mp inVolume, rfl, Nat.lt_succ_of_le addressable⟩

end NtfsGeometry

end Ntfs

namespace Ext4

open ByteLayout

/-- A block's range, computed in 64 bits, is the one meant: its offset, where it ends,
and no other data block at the same place. -/
structure Ext4Blocks.NeverWraps (blocks : Ext4Blocks) : Prop where
  offset : ∀ block, blocks.isDataBlock block = true →
    blocks.blockOffset block = block * blocks.geometry.blockSizeBytes
  end_ : ∀ block, blocks.isDataBlock block = true →
    (blocks.blockOffset block + blocks.geometry.blockSizeBytes) % 2 ^ 64 =
      block * blocks.geometry.blockSizeBytes + blocks.geometry.blockSizeBytes
  apart : ∀ block other, blocks.isDataBlock block = true → blocks.isDataBlock other = true →
    blocks.blockOffset block = blocks.blockOffset other → block = other

variable {blocks : Ext4Blocks}

theorem neverWraps_of_fits (some_ : 0 < blocks.geometry.blockSizeBytes)
    (fits : blocks.geometry.totalBlocks * blocks.geometry.blockSizeBytes < 2 ^ 64) :
    blocks.NeverWraps := by
  have ends : ∀ block, blocks.isDataBlock block = true →
      block * blocks.geometry.blockSizeBytes + blocks.geometry.blockSizeBytes < 2 ^ 64 := by
    intro block data
    simp only [Ext4Blocks.isDataBlock, Bool.and_eq_true, decide_eq_true_eq] at data
    rw [← Nat.succ_mul]
    exact lt_of_le_of_lt (Nat.mul_le_mul_right _ data.2) fits
  have offset : ∀ block, blocks.isDataBlock block = true →
      blocks.blockOffset block = block * blocks.geometry.blockSizeBytes := by
    intro block data
    have end_ := ends block data
    exact Nat.mod_eq_of_lt (by omega)
  refine ⟨offset, ?_, ?_⟩
  · intro block data
    rw [offset block data, Nat.mod_eq_of_lt (ends block data)]
  · intro block other data otherData same
    rw [offset block data, offset other otherData] at same
    exact Nat.eq_of_mul_eq_mul_right some_ same

/-- The last data block ends where the volume does. -/
theorem fits_of_neverWraps (holds : blocks.geometry.firstDataBlock < blocks.geometry.totalBlocks)
    (never : blocks.NeverWraps) :
    blocks.geometry.totalBlocks * blocks.geometry.blockSizeBytes < 2 ^ 64 := by
  have data : blocks.isDataBlock (blocks.geometry.totalBlocks - 1) = true := by
    simp only [Ext4Blocks.isDataBlock, Bool.and_eq_true, decide_eq_true_eq]
    omega
  have last : blocks.geometry.totalBlocks - 1 + 1 = blocks.geometry.totalBlocks := by omega
  have end_ := never.end_ _ data
  rw [← Nat.succ_mul, Nat.succ_eq_add_one, last] at end_
  rw [← end_]
  exact Nat.mod_lt _ (by decide)

theorem parseExt4Superblock_holds {superblock : Bytes} {geometry : Ext4Geometry}
    (parsed : parseExt4Superblock superblock = .ok geometry) :
    geometry.firstDataBlock < geometry.totalBlocks := by
  simp only [parseExt4Superblock, reject_eq_ok_iff, bind_eq_ok_iff] at parsed
  obtain ⟨-, _, -, fields, read, found⟩ := parsed
  simp only [geometryOf, invalidAt, reject_eq_ok_iff, Except.ok.injEq] at found
  obtain ⟨holds, -, rfl⟩ := found
  exact Nat.not_le.mp holds

/-- No data block's address wraps exactly when the whole volume's bytes can be counted in
64 bits. -/
theorem neverWraps_iff (superblock : Bytes) (geometry : Ext4Geometry)
    (parsed : parseExt4Superblock superblock = .ok geometry) (source : Source) :
    (Ext4Blocks.mk source geometry).NeverWraps ↔
      geometry.totalBlocks * geometry.blockSizeBytes < 2 ^ 64 := by
  have some_ : 0 < geometry.blockSizeBytes :=
    lt_of_lt_of_le (by decide) (parseExt4Superblock_block parsed).1
  constructor
  · exact fits_of_neverWraps (parseExt4Superblock_holds parsed)
  · exact @neverWraps_of_fits ⟨source, geometry⟩ some_

/-- A superblock of 64 KiB blocks that declares one block more than so many times 2^32. -/
def declaringBlocks (upper : Nat) : Bytes :=
  layOut 1024 [leField 4 kInodeCountOffset 16, leField 4 kBlockCountOffset 1,
    leField 4 kBlockShiftOffset 6, leField 4 kBlocksPerGroupOffset 524288,
    leField 4 kInodesPerGroupOffset 16, leField 2 kMagicOffset kMagic,
    leField 2 kInodeSizeOffset 256, leField 4 kFeatureIncompatOffset 0xC0,
    leField 2 kDescriptorSizeOffset 64, leField 4 kBlockCountHighOffset upper]

def declaredGeometry (upper : Nat) : Ext4Geometry where
  blockSizeBytes := 65536
  totalBlocks := upper * 2 ^ 32 + 1
  totalInodes := 16
  blocksPerGroup := 524288
  inodesPerGroup := 16
  inodeSizeBytes := 256
  descriptorSizeBytes := 64
  firstDataBlock := 0
  groupDescriptorBlock := 1
  groupCount := upper * 8192 + 1
  lastOrphanInode := 0
  usesExtents := true

theorem neverWraps_iff_declaringBlocks :
    (Ext4Blocks.mk nowhere (declaredGeometry 4)).NeverWraps ↔ 17179869185 * 65536 < 2 ^ 64 :=
  neverWraps_iff (declaringBlocks 4) (declaredGeometry 4) (by decide +kernel) nowhere

/-- Past 2^48 blocks of 64 KiB, the blocks start over at the volume's first. -/
theorem blockOffset_wraps :
    ¬ ∀ (superblock : Bytes) (geometry : Ext4Geometry),
      parseExt4Superblock superblock = .ok geometry →
      ∀ source, (Ext4Blocks.mk source geometry).NeverWraps := by
  intro never
  have parsed : parseExt4Superblock (declaringBlocks 65536) = .ok (declaredGeometry 65536) := by
    decide +kernel
  have same := (never _ _ parsed nowhere).apart 0 (2 ^ 48) (by decide) (by decide) (by decide)
  exact absurd same (by decide)

end Ext4

section SmallVolumes

open ByteLayout

/-- A FAT32 boot sector of 512-byte clusters that declares so many sectors, its one FAT
in the second of them. -/
def Fat.declaringSectors (totalSectors : Nat) : Bytes :=
  layOut 512 [leField 2 BpbFields.kBytesPerSectorOffset 512,
    leField 1 BpbFields.kSectorsPerClusterOffset 1, leField 2 Fat.kReservedSectorsOffset 1,
    leField 1 Fat.kFatCountOffset 1, leField 4 Fat.kTotalSectorsOffset totalSectors,
    leField 4 Fat.kFatSizeOffset 1, leField 4 Fat.kRootClusterOffset 2,
    ⟨Fat.kFilSysTypeOffset, Fat.kFat32Type⟩, ⟨BpbFields.kBootSignatureOffset, [0x55, 0xAA]⟩]

/-- An NTFS boot sector of 512-byte clusters that declares so many sectors, its table in
the second of them and the record size as the given byte. -/
def Ntfs.declaringSectors (totalSectors recordSize : Nat) : Bytes :=
  layOut 512 [⟨Ntfs.kOemIdOffset, Ntfs.kOemId⟩, leField 2 BpbFields.kBytesPerSectorOffset 512,
    leField 1 BpbFields.kSectorsPerClusterOffset 1, leField 8 Ntfs.kTotalSectorsOffset totalSectors,
    leField 8 Ntfs.kMftClusterOffset 1, leField 1 Ntfs.kRecordSizeOffset recordSize,
    ⟨BpbFields.kBootSignatureOffset, [0x55, 0xAA]⟩]

end SmallVolumes

/-- Whatever boot sector is accepted, no offset computed from it wraps. -/
theorem addressing_exact :
    (∀ sector geometry, Fat.parseFat32BootSector sector = .ok geometry →
      (Fat.chainGeometryOf geometry).Exact) ∧
    (∀ sector geometry, Exfat.parseExfatBootSector sector = .ok geometry →
      (Exfat.chainGeometryOf geometry).Exact) ∧
    ∀ sector geometry, Ntfs.parseBootSector sector = .ok geometry → geometry.Exact := by
  refine ⟨?_, ?_, ?_⟩
  · intro sector geometry parsed
    exact ClusterGeometry.exact_of_sound (Fat.parseFat32BootSector_sound parsed)
      (Fat.parseFat32BootSector_tableFits parsed)
  · intro sector geometry parsed
    exact ClusterGeometry.exact_of_sound (Exfat.parseExfatBootSector_sound parsed)
      (Exfat.parseExfatBootSector_tableFits parsed)
  · intro sector geometry parsed
    exact Ntfs.NtfsGeometry.parseBootSector_exact parsed

theorem addressing_exact_small :
    (ClusterGeometry.mk 512 512 512 1024 6).Exact ∧ (Exfat.chainGeometryOf Exfat.smallGeometry).Exact ∧
    (Ntfs.NtfsGeometry.mk 512 512 8 512 1024).Exact := by
  have fat : Fat.parseFat32BootSector (Fat.declaringSectors 8) =
      .ok ⟨512, 512, 1, 512, 512, 1024, 6, 2, true⟩ := by decide +kernel
  have exfat : Exfat.parseExfatBootSector Exfat.smallBootSector = .ok Exfat.smallGeometry := by
    decide +kernel
  have ntfs : Ntfs.parseBootSector (Ntfs.declaringSectors 8 2) = .ok ⟨512, 512, 8, 512, 1024⟩ := by
    decide +kernel
  exact ⟨addressing_exact.1 _ _ fat, addressing_exact.2.1 _ _ exfat, addressing_exact.2.2 _ _ ntfs⟩

end Revenant
