import Revenant.ExfatVolume

/-!
# The live tree of an exFAT volume

Which directories and files a volume holds, said without the walk: a directory
occupies the clusters its chain links or the run it declares, and what its in-use
sets name is in the tree.  Reading a linked directory of a healthy image gives
exactly its clusters.
-/

namespace Revenant
namespace Exfat

open Consulting ByteLayout

/-- The clusters of a healthy image. -/
def chainOn (image : Image) (geometry : ClusterGeometry) : ClusterChain :=
  ⟨image.device.unchanging, geometry⟩

section Layout

variable (image : Image) (geometry : ClusterGeometry)

/-- The bytes of a cluster's entry in the table. -/
def entryBytes (cluster : UInt32) : Bytes :=
  slice image.bytes (geometry.tableOffsetBytes + cluster.toNat * ClusterChain.kEntryBytes)
    ClusterChain.kEntryBytes

/-- What the format says follows a cluster: all 32 bits of its entry. -/
def nextOf (cluster : UInt32) : UInt32 :=
  UInt32.ofNat (fromLittleEndian (entryBytes image geometry cluster))

def IsData (cluster : UInt32) : Prop :=
  kFirstCluster ≤ cluster.toNat ∧ cluster.toNat < kFirstCluster + geometry.totalClusters

instance (cluster : UInt32) : Decidable (IsData geometry cluster) :=
  inferInstanceAs (Decidable (_ ∧ _))

/-- Data clusters linked one to the next, up to a marker that ends the chain. -/
def Linked (next : UInt32 → UInt32) (Marker : UInt32 → Prop) : List UInt32 → Prop
  | [] => False
  | [last] => IsData geometry last ∧ ¬ IsData geometry (next last) ∧ Marker (next last)
  | cluster :: following :: rest =>
      IsData geometry cluster ∧ next cluster = following ∧ Linked next Marker (following :: rest)

/-- What `ClusterChain` takes to follow a cluster: the top four bits of the entry
are dropped. -/
def linkOf (cluster : UInt32) : UInt32 :=
  ClusterChain.decodeEntry (entryBytes image geometry cluster)

/-- Linked as `ClusterChain` follows the table. -/
def Followed (clusters : List UInt32) : Prop :=
  Linked geometry (linkOf image geometry) (fun last => kEndOfChain ≤ last.toNat) clusters

/-- Linked as the format has it. -/
def Chained (clusters : List UInt32) : Prop :=
  Linked geometry (nextOf image geometry) (fun last => last = 0xFFFFFFFF) clusters

/-- The run of clusters a contiguous stream declares. -/
def declaredRun (stream : StreamExtension) : List UInt32 :=
  (List.range ((stream.dataLength.toNat - 1) / geometry.bytesPerCluster + 1)).map fun index =>
    UInt32.ofNat (stream.firstCluster.toNat + index)

/-- Where a stream says its clusters are: in the run it declares, or linked in
the table. -/
def Stored (stream : StreamExtension) (clusters : List UInt32) : Prop :=
  if stream.noFatChain then
    clusters = declaredRun geometry stream ∧ ∀ cluster ∈ clusters, IsData geometry cluster
  else Chained image geometry clusters ∧ clusters.head? = some stream.firstCluster

def clusterBytes (cluster : UInt32) : Bytes :=
  slice image.bytes
    (geometry.dataOffsetBytes + (cluster.toNat - kFirstCluster) * geometry.bytesPerCluster)
    geometry.bytesPerCluster

def directoryBytes (clusters : List UInt32) : Bytes :=
  clusters.flatMap (clusterBytes image geometry)

/-- The clusters of a directory that are read before `cap` is reached, `used`
bytes of it being taken up already. -/
def readClusters (cap : Nat) : (used : Nat) → List UInt32 → List UInt32
  | _, [] => []
  | used, cluster :: clusters =>
      if used < cap then cluster :: readClusters cap (used + geometry.bytesPerCluster) clusters
      else []

/-- A volume whose table and clusters all lie on the image. -/
structure Readable : Prop where
  clusterHolds : 0 < geometry.bytesPerCluster
  wholeSlots : kDirectoryEntryBytes ∣ geometry.bytesPerCluster
  tableCovers : (kFirstCluster + geometry.totalClusters) * ClusterChain.kEntryBytes ≤
    geometry.tableSizeBytes
  tableInside : geometry.tableOffsetBytes + geometry.tableSizeBytes ≤ image.bytes.length
  heapInside : geometry.dataEnd ≤ image.bytes.length

end Layout

section Reading

variable {image : Image} {geometry : ClusterGeometry}

theorem Readable.sound (readable : Readable image geometry) : geometry.Sound :=
  ⟨readable.clusterHolds, readable.heapInside.trans_lt image.addressable⟩

variable (image) in
theorem isDataCluster_eq_true {cluster : UInt32} :
    (chainOn image geometry).isDataCluster cluster = true ↔ IsData geometry cluster :=
  ClusterChain.isDataCluster_iff

/-- An entry inside the table, on the image, is what lies there. -/
theorem entryAt_gives_held {cluster : UInt32}
    (held : (cluster.toNat + 1) * ClusterChain.kEntryBytes ≤ geometry.tableSizeBytes)
    (inside : geometry.tableOffsetBytes + (cluster.toNat + 1) * ClusterChain.kEntryBytes ≤
      image.bytes.length) :
    Gives ((chainOn image geometry).entryAt cluster) (linkOf image geometry cluster) := by
  rw [Nat.succ_mul] at held inside
  have inTable : ¬ (geometry.tableOffsetBytes + cluster.toNat * ClusterChain.kEntryBytes +
      ClusterChain.kEntryBytes > geometry.tableOffsetBytes + geometry.tableSizeBytes) := by
    omega
  have onImage : geometry.tableOffsetBytes + cluster.toNat * ClusterChain.kEntryBytes +
      ClusterChain.kEntryBytes ≤ image.bytes.length := by
    omega
  unfold ClusterChain.entryAt
  refine (if_neg inTable).symm ▸ ?_
  exact Gives.bind (Source.read_gives image onImage) Gives.pure

theorem entryAt_gives (readable : Readable image geometry) {cluster : UInt32}
    (data : IsData geometry cluster) :
    Gives ((chainOn image geometry).entryAt cluster) (linkOf image geometry cluster) := by
  have covers := readable.tableCovers
  have inside := readable.tableInside
  have below := data.2
  unfold ClusterChain.kEntryBytes at covers
  apply entryAt_gives_held
  · unfold ClusterChain.kEntryBytes
    omega
  · unfold ClusterChain.kEntryBytes
    omega

/-- Nothing but the entry that lies there is read. -/
theorem entryAt_yields_held (image : Image) (geometry : ClusterGeometry) (cluster : UInt32) :
    Yields ((chainOn image geometry).entryAt cluster) fun next =>
      next = linkOf image geometry cluster := by
  unfold ClusterChain.entryAt
  refine Yields.reject fun _ => Yields.bind (Source.read_yields image _ _) ?_
  rintro raw rfl
  exact Yields.pure rfl

theorem chainEnd_gives {last : UInt32} (marker : kEndOfChain ≤ last.toNat) :
    Gives (ClusterChain.chainEnd last) [] := by
  unfold ClusterChain.chainEnd
  rw [if_neg (by omega)]
  exact Gives.pure

section Chains

variable {next : UInt32 → UInt32} {Marker : UInt32 → Prop} {first : UInt32}
  {clusters others : List UInt32}

theorem Linked.tail {following : UInt32}
    (linked : Linked geometry next Marker (first :: following :: clusters)) :
    Linked geometry next Marker (following :: clusters) :=
  linked.2.2

theorem Linked.data (linked : Linked geometry next Marker clusters) {cluster : UInt32}
    (member : cluster ∈ clusters) : IsData geometry cluster := by
  induction clusters with
  | nil => exact linked.elim
  | cons head rest ih =>
      cases rest with
      | nil =>
          rw [List.mem_singleton.mp member]
          exact linked.1
      | cons following rest =>
          rcases List.mem_cons.mp member with rfl | later
          · exact linked.1
          · exact ih linked.tail later

/-- A cluster has one chain. -/
theorem Linked.unique (linked : Linked geometry next Marker (first :: clusters))
    (other : Linked geometry next Marker (first :: others)) : clusters = others := by
  induction clusters generalizing first others with
  | nil =>
      cases others with
      | nil => rfl
      | cons following others =>
          obtain ⟨-, link, rest⟩ := other
          exact absurd (rest.data List.mem_cons_self) (link ▸ linked.2.1)
  | cons following clusters ih =>
      cases others with
      | nil =>
          obtain ⟨-, link, rest⟩ := linked
          exact absurd (rest.data List.mem_cons_self) (link ▸ other.2.1)
      | cons another others =>
          obtain ⟨-, link, rest⟩ := linked
          obtain ⟨-, otherLink, otherRest⟩ := other
          obtain rfl : following = another := link.symm.trans otherLink
          rw [ih rest otherRest]

theorem Linked.suffix {before : List UInt32}
    (linked : Linked geometry next Marker (before ++ first :: clusters)) :
    Linked geometry next Marker (first :: clusters) := by
  induction before with
  | nil => exact linked
  | cons head before ih =>
      cases before with
      | nil => exact linked.tail
      | cons following before => exact ih linked.tail

/-- A chain that ends does not meet itself. -/
theorem Linked.nodup (linked : Linked geometry next Marker clusters) : clusters.Nodup := by
  induction clusters with
  | nil => exact List.nodup_nil
  | cons head rest ih =>
      cases rest with
      | nil => simp
      | cons following rest =>
          refine (ih linked.tail).cons fun again => ?_
          obtain ⟨before, after, split⟩ := List.append_of_mem again
          have loop : Linked geometry next Marker (head :: after) := by
            have whole := linked.tail
            rw [split] at whole
            exact whole.suffix
          have same := congrArg List.length (loop.unique linked)
          rw [split, List.length_append, List.length_cons] at same
          omega

theorem length_le_totalClusters (once : clusters.Nodup)
    (data : ∀ cluster ∈ clusters, IsData geometry cluster) :
    clusters.length ≤ geometry.totalClusters := by
  have distinct : (clusters.map fun cluster => cluster.toNat - kFirstCluster).Nodup := by
    refine once.map_on fun a mem_a b mem_b same => UInt32.toNat_inj.mp ?_
    have := (data a mem_a).1
    have := (data b mem_b).1
    omega
  have inside : (clusters.map fun cluster => cluster.toNat - kFirstCluster) ⊆
      List.range geometry.totalClusters := by
    intro number member
    obtain ⟨cluster, found, rfl⟩ := List.mem_map.mp member
    have := data cluster found
    unfold IsData at this
    exact List.mem_range.mpr (by omega)
  have bound := (List.subperm_of_subset distinct inside).length_le
  rwa [List.length_map, List.length_range] at bound

/-- A chain whose entries can be read is followed to its end. -/
theorem follow_gives {table : ClusterChain} {room : Nat}
    (linked : Linked table.geometry next (fun last => kEndOfChain ≤ last.toNat) (first :: clusters))
    (entries : ∀ cluster ∈ first :: clusters, Gives (table.entryAt cluster) (next cluster))
    (enough : clusters.length < room) : Gives (table.follow room first) (first :: clusters) := by
  induction clusters generalizing first room with
  | nil =>
      obtain ⟨room, rfl⟩ := Nat.exists_eq_succ_of_ne_zero (Nat.ne_of_gt enough)
      obtain ⟨data, ends, marker⟩ := linked
      unfold ClusterChain.follow
      rw [if_pos (ClusterChain.isDataCluster_iff.mpr data)]
      refine Gives.bind (entries first List.mem_cons_self) (Gives.bind ?_ Gives.pure)
      have stops : ¬ table.isDataCluster (next first) = true :=
        fun goes => ends (ClusterChain.isDataCluster_iff.mp goes)
      cases room with
      | zero =>
          unfold ClusterChain.follow
          rw [if_neg stops]
          exact chainEnd_gives marker
      | succ room =>
          unfold ClusterChain.follow
          rw [if_neg stops]
          exact chainEnd_gives marker
  | cons following clusters ih =>
      obtain ⟨room, rfl⟩ := Nat.exists_eq_succ_of_ne_zero (Nat.ne_of_gt (Nat.zero_lt_of_lt enough))
      obtain ⟨data, link, rest⟩ := linked
      unfold ClusterChain.follow
      rw [if_pos (ClusterChain.isDataCluster_iff.mpr data)]
      refine Gives.bind (entries first List.mem_cons_self) (Gives.bind ?_ Gives.pure)
      rw [link]
      apply ih rest
      · exact fun cluster member => entries cluster (List.mem_cons_of_mem first member)
      · simpa using enough

/-- The room `chainFrom` gives a chain is enough for it. -/
theorem chainFrom_gives_linked {table : ClusterChain}
    (linked : Linked table.geometry next (fun last => kEndOfChain ≤ last.toNat) (first :: clusters))
    (entries : ∀ cluster ∈ first :: clusters, Gives (table.entryAt cluster) (next cluster)) :
    Gives (table.chainFrom first) (first :: clusters) := by
  have bound := length_le_totalClusters linked.nodup fun _ member => linked.data member
  exact follow_gives linked entries bound

theorem chainFrom_gives (readable : Readable image geometry)
    (linked : Followed image geometry (first :: clusters)) :
    Gives ((chainOn image geometry).chainFrom first) (first :: clusters) :=
  chainFrom_gives_linked linked fun _ member => entryAt_gives readable (linked.data member)

end Chains

theorem length_clusterBytes (readable : Readable image geometry) {cluster : UInt32}
    (data : IsData geometry cluster) :
    (clusterBytes image geometry cluster).length = geometry.bytesPerCluster := by
  have fits := ClusterChain.cluster_end_le ((isDataCluster_eq_true image).mpr data)
  have inside := readable.heapInside
  simp only [chainOn, ClusterGeometry.dataEnd] at fits inside
  rw [clusterBytes, slice, List.length_take, List.length_drop]
  omega

theorem readCluster_gives (readable : Readable image geometry) {cluster : UInt32}
    (data : IsData geometry cluster) :
    Gives ((chainOn image geometry).source.read (clusterOffset geometry cluster).toNat
      geometry.bytesPerCluster) (clusterBytes image geometry cluster) := by
  have known := (isDataCluster_eq_true image).mpr data
  have fits := ClusterChain.cluster_end_le known
  have inside := readable.heapInside
  have start := @ClusterChain.toNat_clusterOffset (chainOn image geometry) cluster readable.sound known
  simp only [chainOn, ClusterGeometry.dataEnd] at fits inside start
  rw [start]
  exact Source.read_gives image (by omega)

theorem readDirectoryBytes_gives (readable : Readable image geometry) {clusters : List UInt32}
    (cap : Nat) (before : Bytes) (data : ∀ cluster ∈ clusters, IsData geometry cluster) :
    Gives ((chainOn image geometry).readDirectoryBytes cap clusters before)
      (before ++ directoryBytes image geometry (readClusters geometry cap before.length clusters)) := by
  induction clusters generalizing before with
  | nil => simpa [ClusterChain.readDirectoryBytes, directoryBytes, readClusters] using Gives.pure
  | cons cluster clusters ih =>
      have here := data cluster List.mem_cons_self
      unfold ClusterChain.readDirectoryBytes readClusters
      split
      case isFalse => simpa [directoryBytes] using Gives.pure
      case isTrue =>
          apply Gives.bind (readCluster_gives readable here)
          have later := ih (before ++ clusterBytes image geometry cluster)
            fun one member => data one (List.mem_cons_of_mem _ member)
          rw [List.append_assoc, List.length_append, length_clusterBytes readable here] at later
          exact later

theorem readClusters_of_small (holds : 0 < geometry.bytesPerCluster) {clusters : List UInt32}
    {cap used : Nat} (small : used + clusters.length * geometry.bytesPerCluster ≤ cap) :
    readClusters geometry cap used clusters = clusters := by
  induction clusters generalizing used with
  | nil => rfl
  | cons cluster clusters ih =>
      rw [List.length_cons, Nat.succ_mul] at small
      rw [readClusters, if_pos (by omega), ih (by omega)]

/-- What is read of a directory that starts at `first`. -/
def Lists (image : Image) (geometry : ClusterGeometry) (first : UInt32) (bytes : Bytes) : Prop :=
  ∃ clusters, Followed image geometry clusters ∧ clusters.head? = some first ∧
    bytes = directoryBytes image geometry (readClusters geometry kMaxDirectoryBytes 0 clusters)

theorem readDirectory_gives (readable : Readable image geometry) {first : UInt32} {bytes : Bytes}
    (lists : Lists image geometry first bytes) :
    Gives (readDirectory (chainOn image geometry) first) bytes := by
  obtain ⟨clusters, followed, starts, rfl⟩ := lists
  cases clusters with
  | nil => exact followed.elim
  | cons head rest =>
      obtain rfl : head = first := by simpa using starts
      apply Gives.bind (chainFrom_gives readable followed)
      exact readDirectoryBytes_gives readable _ [] fun _ member => followed.data member

theorem Followed.lists {first : UInt32} {clusters : List UInt32} (readable : Readable image geometry)
    (followed : Followed image geometry clusters) (starts : clusters.head? = some first)
    (small : clusters.length * geometry.bytesPerCluster ≤ kMaxDirectoryBytes) :
    Lists image geometry first (directoryBytes image geometry clusters) := by
  refine ⟨clusters, followed, starts, ?_⟩
  rw [readClusters_of_small readable.clusterHolds (by omega)]

/-- What following a chain from `first` comes to when it does not fail: no cluster
at all, or a linked chain. -/
def Follows (image : Image) (geometry : ClusterGeometry) (first : UInt32) (clusters : List UInt32) :
    Prop :=
  clusters = [] ∧ ¬ IsData geometry first ∧ kEndOfChain ≤ first.toNat ∨
    Followed image geometry clusters ∧ clusters.head? = some first

theorem chainEnd_follows {last : UInt32}
    (stops : ¬ (chainOn image geometry).isDataCluster last = true) :
    Yields (ClusterChain.chainEnd last) (Follows image geometry last) := by
  refine Yields.reject fun marker => Yields.pure (.inl ⟨rfl, ?_, Nat.le_of_not_lt marker⟩)
  exact fun data => stops ((isDataCluster_eq_true image).mpr data)

theorem Follows.cons {first : UInt32} {clusters : List UInt32} (data : IsData geometry first)
    (follows : Follows image geometry (linkOf image geometry first) clusters) :
    Follows image geometry first (first :: clusters) := by
  rcases follows with ⟨rfl, ends, marker⟩ | ⟨followed, starts⟩
  · exact .inr ⟨⟨data, ends, marker⟩, rfl⟩
  · cases clusters with
    | nil => exact followed.elim
    | cons next rest =>
        have link : next = linkOf image geometry first := by simpa using starts
        exact .inr ⟨⟨data, link.symm, followed⟩, rfl⟩

theorem follow_follows (readable : Readable image geometry) (room : Nat) (first : UInt32) :
    Yields ((chainOn image geometry).follow room first) (Follows image geometry first) := by
  induction room generalizing first with
  | zero =>
      unfold ClusterChain.follow
      exact Yields.reject chainEnd_follows
  | succ room ih =>
      unfold ClusterChain.follow
      split
      case isFalse stops => exact chainEnd_follows stops
      case isTrue goes =>
          have data := (isDataCluster_eq_true image).mp goes
          refine Yields.bind (entryAt_gives readable data).yields ?_
          rintro next rfl
          exact Yields.bind (ih _) fun later tail => Yields.pure (tail.cons data)

/-- No chain on a readable volume ends in a device failure. -/
theorem follow_spares (readable : Readable image geometry) (room : Nat) (first : UInt32) :
    Spares ((chainOn image geometry).follow room first) fun error => error.code = .kIoFailure := by
  have refused : ¬ErrorCode.kInvalidArgument = ErrorCode.kIoFailure := by decide
  have full : ¬ErrorCode.kOutOfRange = ErrorCode.kIoFailure := by decide
  have ends : ∀ last, Spares (ClusterChain.chainEnd last) fun error => error.code = .kIoFailure :=
    fun last => Spares.reject (fun _ => refused) fun _ => Spares.pure
  induction room generalizing first with
  | zero =>
      unfold ClusterChain.follow
      exact Spares.reject (fun _ => full) fun _ => ends first
  | succ room ih =>
      unfold ClusterChain.follow
      split
      case isFalse => exact ends first
      case isTrue goes =>
          have gives := entryAt_gives readable ((isDataCluster_eq_true image).mp goes)
          refine Spares.bind gives.spares Yields.trivial fun next _ => ?_
          exact Spares.bind (ih next) Yields.trivial fun later _ => Spares.pure

/-- A directory that was read gave what it lists. -/
theorem readDirectory_lists (readable : Readable image geometry) (first : UInt32) :
    Yields (readDirectory (chainOn image geometry) first) fun bytes =>
      bytes = [] ∨ Lists image geometry first bytes := by
  refine Yields.bind (follow_follows readable _ first) fun clusters found => ?_
  rcases found with ⟨rfl, -⟩ | ⟨followed, starts⟩
  · exact Yields.pure (.inl rfl)
  · have gives := readDirectoryBytes_gives readable kMaxDirectoryBytes [] fun _ member =>
      followed.data member
    exact gives.yields.mono fun bytes same => .inr ⟨clusters, followed, starts, by simpa using same⟩

theorem readDirectory_spares (readable : Readable image geometry) (first : UInt32) :
    Spares (readDirectory (chainOn image geometry) first) fun error => error.code = .kIoFailure := by
  apply Spares.bind (follow_spares readable _ first) (follow_follows readable _ first)
  intro clusters found
  rcases found with ⟨rfl, -⟩ | ⟨followed, -⟩
  · exact Spares.pure
  · have gives := readDirectoryBytes_gives readable kMaxDirectoryBytes [] fun _ member =>
      followed.data member
    exact gives.spares

end Reading

section LiveTree

variable (image : Image) (geometry : ClusterGeometry) (rootCluster : UInt32)

/-- The directory a set of `cursor` names. -/
def childOf (cursor : Cursor) (set : AssembledSet) : Cursor :=
  ⟨joinedPath cursor.path set.name.utf8, set.firstCluster, cursor.depth + 1⟩

/-- The directories of the tree, each with the clusters it occupies: the root, and
what in-use directory sets of such a directory name. -/
inductive LiveDirectory : Cursor → List UInt32 → Prop where
  | root {clusters : List UInt32} (chained : Chained image geometry clusters)
      (starts : clusters.head? = some rootCluster) :
      LiveDirectory (rootCursor rootCluster) clusters
  | child {cursor : Cursor} {clusters occupied : List UInt32} {finished : FinishedSet}
      {set : AssembledSet} (parent : LiveDirectory cursor clusters)
      (listed : finished ∈ setsIn (directoryBytes image geometry clusters))
      (taken : finished.set.take = some set) (inUse : set.inUse = true)
      (directory : set.isDirectory = true) (stored : Stored image geometry finished.set.stream occupied) :
      LiveDirectory (childOf cursor set) occupied

/-- A volume whose live directories form a tree the walk has room for. -/
structure LiveTree : Prop where
  readable : Readable image geometry
  shallow : ∀ cursor clusters, LiveDirectory image geometry rootCluster cursor clusters →
    cursor.depth ≤ kMaxDirectoryDepth
  small : ∀ cursor clusters, LiveDirectory image geometry rootCluster cursor clusters →
    clusters.length * geometry.bytesPerCluster ≤ kMaxDirectoryBytes
  /-- No two directories share a cluster. -/
  disjoint : ∀ cursor clusters other others cluster,
    LiveDirectory image geometry rootCluster cursor clusters →
    LiveDirectory image geometry rootCluster other others →
    cluster ∈ clusters → cluster ∈ others → cursor = other ∧ clusters = others

/-- Where a directory's slot is on the volume: in which cluster, and which of its
slots. -/
def spotOf (clusters : List UInt32) (slot : Nat) : Option (UInt32 × Nat) :=
  let perCluster := geometry.bytesPerCluster / kDirectoryEntryBytes
  clusters[slot / perCluster]?.map fun cluster => (cluster, slot % perCluster)

end LiveTree

section Slots

/-- A set under construction was opened by a slot already passed. -/
def Opened (open_ : FinishedSet) (index : Nat) : Prop :=
  open_.set.active = true → open_.slot < index

theorem Opened.absorb {open_ : FinishedSet} {index : Nat} (opened : Opened open_ index)
    (kind : ExfatEntryKind) (slot : Bytes) :
    Opened { open_ with set := open_.set.absorb kind slot } (index + 1) := by
  intro active
  by_cases was : open_.set.active = true
  · exact Nat.lt_succ_of_lt (opened was)
  · simp only [PendingSet.absorb, was] at active
    exact absurd active (by simp [was])

/-- A complete set was opened by one of the slots. -/
theorem finished_slot_lt {slots : List Bytes} {open_ : FinishedSet} {index : Nat}
    (opened : Opened open_ index) {set : FinishedSet} (member : set ∈ finished open_ index slots)
    (active : set.set.active = true) : set.slot < index + slots.length := by
  induction slots generalizing open_ index with
  | nil =>
      obtain rfl : set = open_ := List.mem_singleton.mp member
      exact opened active
  | cons slot slots ih =>
      rw [List.length_cons, ← Nat.add_assoc, Nat.add_right_comm]
      unfold finished at member
      split at member
      case h_1 => exact ih (fun was => Nat.lt_succ_of_lt (opened was)) member
      case h_2 header _ =>
          split at member
          case isFalse => exact ih (opened.absorb header.kind slot) member
          case isTrue =>
              rcases List.mem_cons.mp member with rfl | later
              · have := opened active
                omega
              · exact ih (fun _ => Nat.lt_succ_self index) later

theorem slot_le_finished {slots : List Bytes} {open_ : FinishedSet} {index : Nat} (bound : Nat)
    (opened : bound ≤ open_.slot) (reached : bound ≤ index) {set : FinishedSet}
    (member : set ∈ finished open_ index slots) : bound ≤ set.slot := by
  induction slots generalizing open_ index with
  | nil =>
      obtain rfl : set = open_ := List.mem_singleton.mp member
      exact opened
  | cons slot slots ih =>
      unfold finished at member
      split at member
      case h_1 => exact ih opened (by omega) member
      case h_2 =>
          split at member
          case isFalse => exact ih (by exact opened) (by omega) member
          case isTrue =>
              rcases List.mem_cons.mp member with rfl | later
              · exact opened
              · exact ih (by exact reached) (by omega) later

/-- Complete sets are opened one after the other. -/
theorem finished_ordered {slots : List Bytes} {open_ : FinishedSet} {index : Nat}
    (opened : Opened open_ index) :
    (finished open_ index slots).Pairwise fun one other =>
      one.set.active = true → one.slot < other.slot := by
  induction slots generalizing open_ index with
  | nil => exact List.pairwise_singleton _ _
  | cons slot slots ih =>
      unfold finished
      split
      case h_1 => exact ih fun was => Nat.lt_succ_of_lt (opened was)
      case h_2 header _ =>
          split
          case isFalse => exact ih (opened.absorb header.kind slot)
          case isTrue =>
              refine List.Pairwise.cons (fun later member active => ?_) ?_
              · have started := opened active
                have := slot_le_finished index (Nat.le_refl index) (by omega) member
                omega
              · exact ih fun _ => Nat.lt_succ_self index

theorem take_active {pending : PendingSet} {set : AssembledSet}
    (taken : pending.take = some set) : pending.active = true := by
  unfold PendingSet.take at taken
  split at taken
  case isTrue => cases taken
  case isFalse complete =>
      rw [Bool.or_eq_true, not_or] at complete
      simpa using complete.1

theorem setsIn_slot_lt {bytes : Bytes} {finished : FinishedSet} {set : AssembledSet}
    (listed : finished ∈ setsIn bytes) (taken : finished.set.take = some set) :
    finished.slot < bytes.length / kDirectoryEntryBytes := by
  have inside := finished_slot_lt (by exact nofun) listed (take_active taken)
  have short : (upToEnd bytes).length ≤ (wholeSlots kDirectoryEntryBytes bytes).length :=
    List.Sublist.length_le (List.takeWhile_sublist _)
  rw [wholeSlots, List.length_map, List.length_range] at short
  omega

theorem setsIn_ordered (bytes : Bytes) :
    (setsIn bytes).Pairwise fun one other => one.set.active = true → one.slot < other.slot :=
  finished_ordered (by exact nofun)

section Spots

variable {image : Image} {geometry : ClusterGeometry} {clusters : List UInt32}

theorem Readable.slots_pos (readable : Readable image geometry) :
    0 < geometry.bytesPerCluster / kDirectoryEntryBytes :=
  Nat.div_pos (Nat.le_of_dvd readable.clusterHolds readable.wholeSlots) (by decide)

theorem length_directoryBytes (readable : Readable image geometry)
    (data : ∀ cluster ∈ clusters, IsData geometry cluster) :
    (directoryBytes image geometry clusters).length / kDirectoryEntryBytes =
      clusters.length * (geometry.bytesPerCluster / kDirectoryEntryBytes) := by
  have whole : (directoryBytes image geometry clusters).length =
      clusters.length * geometry.bytesPerCluster := by
    rw [directoryBytes, List.length_flatMap]
    rw [List.map_congr_left fun cluster member => length_clusterBytes readable (data cluster member)]
    simp
  rw [whole, Nat.mul_div_assoc _ readable.wholeSlots]

theorem spotOf_of_lt (positive : 0 < geometry.bytesPerCluster / kDirectoryEntryBytes) {slot : Nat}
    (inside : slot < clusters.length * (geometry.bytesPerCluster / kDirectoryEntryBytes)) :
    ∃ spot, spotOf geometry clusters slot = some spot := by
  have index := (Nat.div_lt_iff_lt_mul positive).mpr inside
  exact ⟨_, Option.map_eq_some_iff.mpr ⟨_, List.getElem?_eq_getElem index, rfl⟩⟩

theorem mem_of_spotOf {slot within : Nat} {cluster : UInt32}
    (spot : spotOf geometry clusters slot = some (cluster, within)) : cluster ∈ clusters := by
  obtain ⟨found, at_, same⟩ := Option.map_eq_some_iff.mp spot
  cases same
  exact List.mem_of_getElem? at_

/-- No two slots of a directory are at one spot. -/
theorem spotOf_inj (once : clusters.Nodup) {slot other : Nat} {spot : UInt32 × Nat}
    (first : spotOf geometry clusters slot = some spot)
    (second : spotOf geometry clusters other = some spot) : slot = other := by
  obtain ⟨cluster, found, rfl⟩ := Option.map_eq_some_iff.mp first
  obtain ⟨cluster', found', same⟩ := Option.map_eq_some_iff.mp second
  obtain ⟨rfl, within⟩ := Prod.mk.inj same
  have inside := (List.getElem?_eq_some_iff.mp found).1
  have index := (List.getElem?_inj inside once).mp (found.trans found'.symm)
  rw [← Nat.div_add_mod slot (geometry.bytesPerCluster / kDirectoryEntryBytes), index, ← within,
    Nat.div_add_mod]

end Spots

end Slots

end Exfat
end Revenant
