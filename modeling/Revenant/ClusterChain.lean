import Revenant.ExtentSpan
import Revenant.VolumeReading

/-!
# Following a cluster chain

FAT32 and exFAT describe a volume differently, but a chain works the same in
both: a table of 32-bit entries, cluster numbering from 2, and an end-of-chain
marker.
-/

namespace Revenant

open Consulting ExtentSpan

def kFirstCluster : Nat := 2
def kClusterMask : Nat := 0x0FFFFFFF
def kEndOfChain : Nat := 0x0FFFFFF8

/-- What following a chain needs.  The parsers keep every offset derived from
these far below 2^64, so nothing computed from them wraps. -/
structure ClusterGeometry where
  bytesPerCluster : Nat
  tableOffsetBytes : Nat
  tableSizeBytes : Nat
  dataOffsetBytes : Nat
  totalClusters : Nat
deriving DecidableEq

/-- Where `cluster` begins on the device. -/
def clusterOffset (geometry : ClusterGeometry) (cluster : UInt32) : UInt64 :=
  UInt64.ofNat
    (geometry.dataOffsetBytes + (cluster.toNat - kFirstCluster) * geometry.bytesPerCluster)

/-- A device read as a table of clusters. -/
structure ClusterChain where
  source : Source
  geometry : ClusterGeometry

namespace ClusterChain

def kEntryBytes : Nat := 4

def isDataCluster (table : ClusterChain) (value : UInt32) : Bool :=
  kFirstCluster ≤ value.toNat && value.toNat < kFirstCluster + table.geometry.totalClusters

def decodeEntry (raw : Bytes) : UInt32 :=
  UInt32.ofNat (ByteLayout.fromLittleEndian raw &&& kClusterMask)

def entryAt (table : ClusterChain) (cluster : UInt32) : Attempt UInt32 :=
  let offset := table.geometry.tableOffsetBytes + cluster.toNat * kEntryBytes
  if offset + kEntryBytes > table.geometry.tableOffsetBytes + table.geometry.tableSizeBytes then
    throw { code := .kOutOfRange, offset := offset }
  else do
    let raw ← table.source.read offset kEntryBytes
    return decodeEntry raw

/-- A chain ends at an end-of-chain marker and nowhere else. -/
def chainEnd (last : UInt32) : Attempt (List UInt32) :=
  if last.toNat < kEndOfChain then throw { code := .kInvalidArgument, offset := last.toNat }
  else return []

/-- The clusters from `cluster` on, at most `room` of them. -/
def follow (table : ClusterChain) : (room : Nat) → (cluster : UInt32) → Attempt (List UInt32)
  | 0, cluster =>
      if table.isDataCluster cluster then
        throw { code := .kOutOfRange, offset := table.geometry.totalClusters }
      else chainEnd cluster
  | room + 1, cluster =>
      if table.isDataCluster cluster then do
        let next ← table.entryAt cluster
        let later ← table.follow room next
        return cluster :: later
      else chainEnd cluster

/-- Every cluster a file starting at `first` occupies, in order. -/
def chainFrom (table : ClusterChain) (first : UInt32) : Attempt (List UInt32) :=
  table.follow table.geometry.totalClusters first

/-- Every byte of the directory occupying `clusters`, up to `capBytes`. -/
def readDirectoryBytes (table : ClusterChain) (capBytes : Nat) :
    (clusters : List UInt32) → (bytes : Bytes) → Attempt Bytes
  | [], bytes => return bytes
  | cluster :: clusters, bytes =>
      if bytes.length < capBytes then do
        let read ← table.source.read (clusterOffset table.geometry cluster).toNat
          table.geometry.bytesPerCluster
        table.readDirectoryBytes capBytes clusters (bytes ++ read)
      else return bytes

def clusterExtent (geometry : ClusterGeometry) (cluster : UInt32) : Extent :=
  ⟨clusterOffset geometry cluster, UInt64.ofNat geometry.bytesPerCluster⟩

/-- Clusters as device extents, the last trimmed to the size of the file. -/
def chainExtents (clusters : List UInt32) (geometry : ClusterGeometry) (sizeBytes : UInt64) :
    Result (List Extent) :=
  if clusters.isEmpty || sizeBytes == 0 then .ok []
  else trimToSize ((clusters.map (clusterExtent geometry)).foldl appendExtent []) sizeBytes

/-- The extents a chain spells, or none when it will not follow. -/
def extentsFollowingChain (table : ClusterChain) (first : UInt32) (sizeBytes : UInt64) :
    Reading (List Extent) := do
  match ← (table.chainFrom first).run with
  | .error _ => return []
  | .ok clusters =>
      match chainExtents clusters table.geometry sizeBytes with
      | .error _ => return []
      | .ok extents => return extents

/-- The contiguous run a file of `sizeBytes` starting at `first` would occupy. -/
def extentsAssumingContiguous (table : ClusterChain) (first : UInt32) (sizeBytes : UInt64) :
    List Extent :=
  if sizeBytes = 0 then []
  else
    let clusters := (sizeBytes.toNat - 1) / table.geometry.bytesPerCluster + 1
    if first.toNat + clusters > kFirstCluster + table.geometry.totalClusters then []
    else [⟨clusterOffset table.geometry first, sizeBytes⟩]

end ClusterChain

namespace ClusterGeometry

/-- Where the data region ends. -/
def dataEnd (geometry : ClusterGeometry) : Nat :=
  geometry.dataOffsetBytes + geometry.totalClusters * geometry.bytesPerCluster

/-- What every parsed geometry is. -/
structure Sound (geometry : ClusterGeometry) : Prop where
  clusterHolds : 0 < geometry.bytesPerCluster
  addressable : geometry.dataEnd < 2 ^ 63

end ClusterGeometry

namespace ClusterChain

variable {table : ClusterChain} {cluster : UInt32}

theorem isDataCluster_iff :
    table.isDataCluster cluster = true ↔
      kFirstCluster ≤ cluster.toNat ∧
        cluster.toNat < kFirstCluster + table.geometry.totalClusters := by
  simp [isDataCluster]

/-- A data cluster ends inside the data region. -/
theorem cluster_end_le (data : table.isDataCluster cluster = true) :
    (cluster.toNat - kFirstCluster) * table.geometry.bytesPerCluster +
        table.geometry.bytesPerCluster ≤
      table.geometry.totalClusters * table.geometry.bytesPerCluster := by
  have inside := isDataCluster_iff.mp data
  rw [← Nat.succ_mul]
  exact Nat.mul_le_mul_right _ (by omega)

theorem toNat_clusterOffset (sound : table.geometry.Sound) (data : table.isDataCluster cluster = true) :
    (clusterOffset table.geometry cluster).toNat =
      table.geometry.dataOffsetBytes +
        (cluster.toNat - kFirstCluster) * table.geometry.bytesPerCluster := by
  have fits := cluster_end_le data
  have addressable := sound.addressable
  unfold ClusterGeometry.dataEnd at addressable
  rw [clusterOffset, UInt64.toNat_ofNat', Nat.mod_eq_of_lt]
  omega

theorem lies_clusterExtent (sound : table.geometry.Sound)
    (data : table.isDataCluster cluster = true) :
    Lies table.geometry.dataOffsetBytes table.geometry.dataEnd
      (clusterExtent table.geometry cluster) := by
  have fits := cluster_end_le data
  have holds := sound.clusterHolds
  have addressable := sound.addressable
  have start := toNat_clusterOffset sound data
  have length : (UInt64.ofNat table.geometry.bytesPerCluster).toNat =
      table.geometry.bytesPerCluster := by
    unfold ClusterGeometry.dataEnd at addressable
    rw [UInt64.toNat_ofNat', Nat.mod_eq_of_lt]
    omega
  unfold ClusterGeometry.dataEnd
  constructor
  · simp only [clusterExtent, length]
    exact holds
  · simp only [clusterExtent, start]
    omega
  · simp only [clusterExtent, start, length]
    omega

theorem chainEnd_yields (last : UInt32) : Yields (chainEnd last) fun clusters => clusters = [] :=
  Yields.reject fun _ => Yields.pure rfl

/-- A chain names data clusters only. -/
theorem follow_yields (room : Nat) (cluster : UInt32) :
    Yields (table.follow room cluster) fun clusters =>
      clusters.length ≤ room ∧ ∀ one ∈ clusters, table.isDataCluster one = true := by
  induction room generalizing cluster with
  | zero =>
      unfold follow
      exact Yields.reject fun _ =>
        (chainEnd_yields cluster).mono fun clusters ended => by simp [ended]
  | succ room ih =>
      unfold follow
      split
      case isTrue data =>
          refine Yields.bind Yields.trivial fun next _ => ?_
          refine Yields.bind (ih next) fun later tail => Yields.pure ?_
          refine ⟨by simpa using tail.1, fun one member => ?_⟩
          rcases List.mem_cons.mp member with rfl | old
          · exact data
          · exact tail.2 one old
      case isFalse =>
          exact (chainEnd_yields cluster).mono fun clusters ended => by simp [ended]

/-- Extents of data clusters lie in the data region, and hold the whole file if
they hold anything. -/
def Located (geometry : ClusterGeometry) (sizeBytes : UInt64) (extents : List Extent) : Prop :=
  (∀ extent ∈ extents, Lies geometry.dataOffsetBytes geometry.dataEnd extent) ∧
    (extents ≠ [] → totalBytes extents = sizeBytes.toNat)

theorem located_nil (geometry : ClusterGeometry) (sizeBytes : UInt64) :
    Located geometry sizeBytes [] := by
  simp [Located]

/-- As many clusters as the volume has hold no more than its data region. -/
theorem totalBytes_clusters (sound : table.geometry.Sound) {clusters : List UInt32}
    (short : clusters.length ≤ table.geometry.totalClusters) :
    totalBytes (clusters.map (clusterExtent table.geometry)) < 2 ^ 63 := by
  have addressable := sound.addressable
  unfold ClusterGeometry.dataEnd at addressable
  have each : ∀ run ∈ clusters.map (clusterExtent table.geometry),
      run.lengthBytes.toNat ≤ table.geometry.bytesPerCluster := by
    intro run member
    obtain ⟨cluster, -, rfl⟩ := List.mem_map.mp member
    rw [clusterExtent, UInt64.toNat_ofNat']
    exact Nat.mod_le _ _
  have sum := totalBytes_le each
  rw [List.length_map] at sum
  have all := Nat.mul_le_mul_right table.geometry.bytesPerCluster short
  omega

theorem chainExtents_located (sound : table.geometry.Sound) {clusters : List UInt32}
    (short : clusters.length ≤ table.geometry.totalClusters)
    (data : ∀ one ∈ clusters, table.isDataCluster one = true) {sizeBytes : UInt64}
    {extents : List Extent}
    (found : chainExtents clusters table.geometry sizeBytes = .ok extents) :
    Located table.geometry sizeBytes extents := by
  unfold chainExtents at found
  split at found
  case isTrue =>
      cases found
      exact located_nil _ _
  case isFalse =>
      have addressable := sound.addressable
      have bounded := totalBytes_clusters sound short
      have run_lies : ∀ run ∈ clusters.map (clusterExtent table.geometry),
          Lies table.geometry.dataOffsetBytes table.geometry.dataEnd run := by
        intro run member
        obtain ⟨one, mem, rfl⟩ := List.mem_map.mp member
        exact lies_clusterExtent sound (data one mem)
      have runs := foldl_appendExtent_spec (lies_merges (by omega)) [] _
        (by rw [totalBytes_nil]; omega) (by simp) run_lies
      obtain ⟨lie, total⟩ :=
        trimToSize_spec lies_shortens found runs.1 fun run member => (runs.1 run member).holds
      exact ⟨lie, fun _ => total⟩

theorem extentsFollowingChain_located (sound : table.geometry.Sound) (first : UInt32)
    (sizeBytes : UInt64) :
    Always (table.extentsFollowingChain first sizeBytes) (Located table.geometry sizeBytes) := by
  refine Always.bind (Yields.run (follow_yields _ first)) fun outcome data => ?_
  cases outcome with
  | error error => exact Always.pure (located_nil _ _)
  | ok clusters =>
      dsimp only
      cases found : chainExtents clusters table.geometry sizeBytes with
      | error error => exact Always.pure (located_nil _ _)
      | ok extents =>
          obtain ⟨short, all⟩ := data clusters rfl
          exact Always.pure (chainExtents_located sound short all found)

theorem extentsAssumingContiguous_located (sound : table.geometry.Sound) {first : UInt32}
    (data : table.isDataCluster first = true) (sizeBytes : UInt64) :
    Located table.geometry sizeBytes (table.extentsAssumingContiguous first sizeBytes) := by
  unfold extentsAssumingContiguous
  split
  case isTrue => exact located_nil _ _
  case isFalse nonempty =>
      dsimp only
      split
      case isTrue => exact located_nil _ _
      case isFalse fits =>
          have start := toNat_clusterOffset sound data
          have inside := isDataCluster_iff.mp data
          have positive : 0 < sizeBytes.toNat := by
            rw [Nat.pos_iff_ne_zero, ← UInt64.toNat_zero]
            exact fun same => nonempty (UInt64.toNat_inj.mp same)
          -- the run needs no more clusters than follow its first
          have enough : sizeBytes.toNat ≤
              (kFirstCluster + table.geometry.totalClusters - first.toNat) *
                table.geometry.bytesPerCluster := by
            have quotient : (sizeBytes.toNat - 1) / table.geometry.bytesPerCluster <
                kFirstCluster + table.geometry.totalClusters - first.toNat := by
              omega
            have := (Nat.div_lt_iff_lt_mul sound.clusterHolds).mp quotient
            omega
          have split_ : (first.toNat - kFirstCluster) * table.geometry.bytesPerCluster +
              (kFirstCluster + table.geometry.totalClusters - first.toNat) *
                table.geometry.bytesPerCluster =
              table.geometry.totalClusters * table.geometry.bytesPerCluster := by
            rw [← Nat.add_mul]
            congr 1
            omega
          refine ⟨fun extent member => ?_, fun _ => by simp⟩
          rw [List.mem_singleton.mp member]
          refine ⟨positive, ?_, ?_⟩
          · simp only [start]
            omega
          · simp only [start, ClusterGeometry.dataEnd]
            omega

end ClusterChain
end Revenant
